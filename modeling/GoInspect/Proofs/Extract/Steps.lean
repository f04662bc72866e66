import GoInspect.Proofs.Extract.Calls

/-!
# Steps are sequential

Every reading is put together from calls one after another, and each kind of object allows few
calls. Arrays, slices and structs use up depth, pointers and interfaces visit an address that is
new. Only maps do neither.
-/

namespace GoInspect

namespace Extract

variable {s : Source} {α β : Type} {allowed : GoType → UInt32 → Set UInt64 → Prop}
  {seen : Set UInt64}

section Parts

theorem Sequential.ite {p q : Reader → Reading α} {c : Prop} [Decidable c]
    (yes : c → Sequential allowed seen p) (no : ¬c → Sequential allowed seen q) :
    Sequential allowed seen fun read => if c then p read else q read := by
  by_cases h : c
  · simp only [if_pos h]
    exact yes h
  · simp only [if_neg h]
    exact no h

/-- Events do not matter. -/
theorem Sequential.note (e : Event) {k : Reader → Reading β} (h : Sequential allowed seen k) :
    Sequential allowed seen fun read => Extract.note e >>= fun _ => k read :=
  .known (k := fun _ => k) (fun _ start => ⟨_, rfl, start⟩) (Set.Subset.refl seen) h

theorem Sequential.noteIf (c : Bool) (e : Event) {k : Reader → Reading β}
    (h : Sequential allowed seen k) :
    Sequential allowed seen fun read => Extract.noteIf c e >>= fun _ => k read := by
  cases c with
  | true => exact .note e h
  | false =>
      exact .known (k := fun _ => k) (fun _ start => ⟨_, rfl, start⟩) (Set.Subset.refl seen) h

theorem mem_seen {trace : Trace} {address : UInt64} :
    address ∈ trace.seen ↔ trace.visited.contains address = true := Iff.rfl

theorem seen_insert (trace : Trace) (address : UInt64) :
    ({ trace with visited := trace.visited.insert address } : Trace).seen =
      insert address trace.seen := by
  ext a
  show (trace.visited.insert address).contains a = true ↔ a = address ∨ _
  rw [Std.TreeSet.contains_insert, Bool.or_eq_true, beq_iff_eq, Std.LawfulEqCmp.compare_eq_iff_eq,
    eq_comm]
  rfl

theorem visit_of_mem {trace : Trace} {address : UInt64} (h : address ∈ trace.seen) :
    Extract.visit address trace = some (false, trace) := by
  show (if trace.visited.contains address then (Pure.pure false : Reading Bool) else _) trace = _
  rw [if_pos (mem_seen.mp h)]
  rfl

theorem visit_of_notMem {trace : Trace} {address : UInt64} (h : address ∉ trace.seen) :
    Extract.visit address trace =
      some (true, { trace with visited := trace.visited.insert address }) := by
  show (if trace.visited.contains address then (Pure.pure false : Reading Bool) else _) trace = _
  rw [if_neg fun there => h (mem_seen.mpr there)]
  rfl

/-- A visit tells whether the address is new, and makes it one that is not. -/
theorem Sequential.visit (address : UInt64) {k : Bool → Reader → Reading β}
    (new : address ∉ seen → Sequential allowed (insert address seen) (k true))
    (old : address ∈ seen → Sequential allowed seen (k false)) :
    Sequential allowed seen fun read => Extract.visit address >>= fun b => k b read := by
  by_cases h : address ∈ seen
  · exact .known (fun trace start => ⟨trace, visit_of_mem (start ▸ h), start⟩)
      (Set.Subset.refl seen) (old h)
  · refine .known (fun trace start => ⟨_, visit_of_notMem (start ▸ h), ?_⟩)
      (Set.subset_insert address seen) (new h)
    rw [seen_insert, start]

end Parts

section Objects

variable {t : GoType} {depth : UInt32}

theorem Sequential.elements (stride : UInt64) (count : Nat) (address : UInt64)
    (fits : ∀ later, seen ⊆ later → allowed t depth later) :
    Sequential allowed seen fun read => elements read t stride depth count address := by
  induction count generalizing address seen with
  | zero => exact .pure _
  | succ count ih =>
      refine .bind (.call (fits seen (Set.Subset.refl seen))) fun v later le => ?_
      refine .ite (fun _ => .pure _) fun _ => ?_
      refine .bind (ih _ fun later' le' => fits later' (le.trans le')) fun found later' le' => ?_
      cases found with
      | none => exact .pure _
      | some vs => exact .pure _

theorem Sequential.arrayOf (length total address : UInt64)
    (fits : depth ≠ 0 → ∀ later, seen ⊆ later → allowed t (depth - 1) later) :
    Sequential allowed seen fun read => arrayOf read t length total address depth := by
  refine .ite (fun _ => .ite (fun _ => .pure _) fun deep => ?_) fun _ => .pure _
  refine .bind (.elements _ _ _ (fits deep)) fun found later le => ?_
  cases found with
  | none => exact .pure _
  | some vs => exact .pure _

theorem pointerTo_of_target {address target : UInt64} (h : s.readWord? address = some target)
    (nonzero : target ≠ 0) (read : Reader) :
    pointerTo s read (some t) address depth =
      (do
        if ← visit target then
          let v ← read t target depth
          if v.isBad then pure (.pointer target ConfidenceLevel.junk.value) else pure v
        else pure (.unparsed target ConfidenceLevel.high.value)) := by
  unfold Extract.pointerTo
  dsimp only
  rw [h]
  split
  · next none => cases none
  · next nil => exact absurd (Option.some.inj nil) nonzero
  · next found =>
    cases found
    rfl

/-- A pointer leads to its target where that is new. -/
theorem Sequential.pointerTo (address : UInt64)
    (fits : ∀ target, target ∉ seen → allowed t depth (insert target seen)) :
    Sequential allowed seen fun read => pointerTo s read (some t) address depth := by
  cases h : s.readWord? address with
  | none =>
      simp only [Extract.pointerTo, h]
      exact .pure _
  | some target =>
      by_cases nil : target = 0
      · subst nil
        simp only [Extract.pointerTo, h]
        exact .pure _
      · simp only [pointerTo_of_target h nil]
        refine .visit target (fun new => ?_) fun _ => .pure _
        refine .bind (.call (fits target new)) fun v later le => ?_
        exact .ite (fun _ => .pure _) fun _ => .pure _

theorem Sequential.interface (hasMethods : Bool) (address : UInt64)
    (fits : ∀ place e target, s.graph.find? place = some e → target ∉ seen →
      allowed e depth (insert target seen)) :
    Sequential allowed seen fun read => interface s read hasMethods address depth := by
  simp only [Extract.interface]
  cases s.readWord? address with
  | none => exact .pure _
  | some first =>
      dsimp only
      cases node : (dynamicType? s hasMethods first).bind s.graph.find? with
      | none => exact .pure _
      | some e =>
          obtain ⟨place, _, found⟩ := Option.bind_eq_some_iff.mp node
          refine .bind (.pointerTo _ fun target => fits place e target found) fun v later le => ?_
          exact .ite (fun _ => .pure _) fun _ => .pure _

theorem Sequential.slice (type : Option GoType) (address : UInt64)
    (fits : ∀ e, type = some e → depth ≠ 0 → ∀ later, seen ⊆ later →
      allowed e (depth - 1) later) :
    Sequential allowed seen fun read => slice s read type address depth := by
  simp only [Extract.slice]
  cases type with
  | none => exact .pure _
  | some e =>
      cases s.readWord? address with
      | none => exact .pure _
      | some base =>
          cases s.readWord? (s.wordAt address 1) with
          | none => exact .pure _
          | some length =>
              cases s.readWord? (s.wordAt address 2) with
              | none => exact .pure _
              | some capacity =>
                  refine .ite (fun _ => .pure _) fun _ => ?_
                  refine .ite (fun _ => .pure _) fun _ => ?_
                  refine .ite (fun _ => .pure _) fun deep => ?_
                  refine .ite (fun _ => .pure _) fun _ => ?_
                  refine .bind (.elements _ _ _ (fits e rfl deep)) fun found later le => ?_
                  cases found with
                  | none => exact .pure _
                  | some vs => exact .pure _

theorem Sequential.fields (address : UInt64) (declared : List (Field (TypeRef GoType)))
    (fits : ∀ f ∈ declared, ∀ e, s.graph.deref? f.type = some e → ∀ later, seen ⊆ later →
      allowed e depth later) :
    Sequential allowed seen fun read => fields s read address depth declared := by
  induction declared generalizing seen with
  | nil => exact .pure _
  | cons f rest ih =>
      simp only [Extract.fields]
      cases element : s.graph.deref? f.type with
      | none => exact .pure _
      | some e =>
          have here := fits f (List.mem_cons_self ..) e element seen (Set.Subset.refl seen)
          refine .bind (.call here) fun v later le => ?_
          refine .ite (fun _ => .pure _) fun _ => ?_
          refine .bind (ih ?_) fun found later' le' => .pure _
          exact fun g mem e element later' le' =>
            fits g (List.mem_cons_of_mem _ mem) e element later' (le.trans le')

theorem Sequential.struct (declared : List (Field (TypeRef GoType))) (address : UInt64)
    (fits : depth ≠ 0 → ∀ f ∈ declared, ∀ e, s.graph.deref? f.type = some e →
      ∀ later, seen ⊆ later → allowed e (depth - 1) later) :
    Sequential allowed seen fun read => struct s read declared address depth := by
  refine .ite (fun _ => .pure _) fun deep => .ite (fun _ => .pure _) fun _ => ?_
  refine .bind (.fields _ _ (fits deep)) fun found later le => ?_
  cases found with
  | nil => exact .pure _
  | cons first rest => exact .pure _

end Objects

section Maps

variable {e : GoType} {depth : UInt32}

theorem withOverflow_of_next {read : Reader} {overflowOffset address next : UInt64}
    {more : List Text × List Value → UInt64 → Reading (Option Entries)}
    {bucket : List Text × List Value} {entries : Entries}
    (taken : bucketEntries? bucket = some entries)
    (h : s.readWord? (address + overflowOffset) = some next) (nonzero : next ≠ 0) :
    withOverflow s read e overflowOffset depth more bucket address =
      (do
        let value ← read e next (depth + 1)
        match structFields? value with
        | none => pure (some entries)
        | some fields => do
          let rest ← more fields next
          pure (some (entries ++ rest.getD []))) := by
  rw [Extract.withOverflow, taken, h]
  dsimp only
  split
  · next none => cases none
  · next nil => exact absurd (Option.some.inj nil) nonzero
  · next found =>
    cases found
    rfl

/-- Buckets are read one level further down than the map. -/
theorem Sequential.withOverflow (overflowOffset : UInt64)
    {more : Reader → List Text × List Value → UInt64 → Reading (Option Entries)}
    (bucket : List Text × List Value) (address : UInt64)
    (fits : ∀ later, seen ⊆ later → allowed e (depth + 1) later)
    (rest : ∀ bucket address later, seen ⊆ later →
      Sequential allowed later fun read => more read bucket address) :
    Sequential allowed seen fun read =>
      withOverflow s read e overflowOffset depth (more read) bucket address := by
  cases taken : bucketEntries? bucket with
  | none =>
      simp only [Extract.withOverflow, taken]
      exact .pure _
  | some entries =>
      cases h : s.readWord? (address + overflowOffset) with
      | none =>
          simp only [Extract.withOverflow, taken, h]
          exact .pure _
      | some next =>
          by_cases nil : next = 0
          · subst nil
            simp only [Extract.withOverflow, taken, h]
            exact .pure _
          · simp only [withOverflow_of_next taken h nil]
            refine .bind (.call (fits seen (Set.Subset.refl seen))) fun v later le => ?_
            cases structFields? v with
            | none => exact .pure _
            | some found => exact .bind (rest _ _ later le) fun _ _ _ => .pure _

theorem Sequential.bucketChain (overflowOffset : UInt64) (limit : Nat)
    (bucket : List Text × List Value) (address : UInt64)
    (fits : ∀ later, seen ⊆ later → allowed e (depth + 1) later) :
    Sequential allowed seen fun read =>
      bucketChain s read e overflowOffset depth limit bucket address := by
  induction limit generalizing bucket address seen with
  | zero => exact .withOverflow _ _ _ fits fun _ _ _ _ => .pure _
  | succ limit ih =>
      exact .withOverflow _ _ _ fits fun bucket address later le =>
        ih bucket address fun later' le' => fits later' (le.trans le')

theorem Sequential.buckets (overflowOffset stride wanted : UInt64) (count : Nat)
    (address : UInt64) (found : Nat) (fits : ∀ later, seen ⊆ later → allowed e (depth + 1) later) :
    Sequential allowed seen fun read =>
      buckets s read e overflowOffset stride wanted depth count address found := by
  induction count generalizing address found seen with
  | zero => exact .pure _
  | succ count ih =>
      refine .ite (fun _ => .pure _) fun _ => ?_
      refine .bind (.call (fits seen (Set.Subset.refl seen))) fun v later le => ?_
      have fits' : ∀ further, later ⊆ further → allowed e (depth + 1) further :=
        fun further le' => fits further (le.trans le')
      cases structFields? v with
      | none => exact .pure _
      | some fields =>
          refine .bind (.bucketChain _ _ _ _ fits') fun here later' le' => ?_
          cases here with
          | none => exact .pure _
          | some entries =>
              refine .bind (ih _ _ fun further le'' => fits' further (le'.trans le''))
                fun there _ _ => ?_
              cases there with
              | none => exact .pure _
              | some others => exact .pure _

theorem Sequential.legacyMap (address : UInt64)
    (fits : ∀ later, seen ⊆ later → allowed e (depth + 1) later) :
    Sequential allowed seen fun read => legacyMap s read e address depth := by
  unfold Extract.legacyMap
  dsimp only
  cases s.readWord? address with
  | none => exact .pure _
  | some count =>
  cases s.readUnsigned? (s.wordAt address 1 + 1) 1 with
  | none => exact .pure _
  | some log2Buckets =>
  cases s.readUnsigned? (s.wordAt address 1 + 4) 4 with
  | none => exact .pure _
  | some seed =>
  cases s.readWord? (s.wordAt address 1 + 8) with
  | none => exact .pure _
  | some base =>
      refine .ite (fun _ => .pure _) fun _ => .ite (fun _ => .pure _) fun _ => ?_
      cases overflowOffset? e with
      | none => exact .pure _
      | some overflow =>
          refine .ite (fun _ => .pure _) fun _ => ?_
          cases overflow with
          | none => exact .note _ (.pure _)
          | some offset =>
              refine .noteIf _ _ (.ite (fun _ => .pure _) fun _ => ?_)
              exact .bind (.buckets _ _ _ _ _ _ fits) fun _ _ _ => .pure _

/-- Groups are read two levels further down than the map. -/
theorem Sequential.group (address : UInt64)
    (fits : ∀ later, seen ⊆ later → allowed e (depth + 2) later) :
    Sequential allowed seen fun read => group read e depth address :=
  .bind (.call (fits seen (Set.Subset.refl seen))) fun _ _ _ => .pure _

theorem Sequential.groups (count : Nat) (address : UInt64)
    (fits : ∀ later, seen ⊆ later → allowed e (depth + 2) later) :
    Sequential allowed seen fun read => groups read e depth count address := by
  induction count generalizing address seen with
  | zero => exact .pure _
  | succ count ih =>
      refine .bind (.group _ fits) fun here later le => ?_
      cases here with
      | none => exact .pure _
      | some entries =>
          refine .bind (ih _ fun later' le' => fits later' (le.trans le')) fun there _ _ => ?_
          cases there with
          | none => exact .pure _
          | some others => exact .pure _

theorem Sequential.table (address : UInt64)
    (fits : ∀ later, seen ⊆ later → allowed e (depth + 2) later) :
    Sequential allowed seen fun read => table s read e depth address := by
  simp only [Extract.table]
  cases s.readWord? (s.wordAt (address + 8) 1) with
  | none => exact .pure _
  | some base =>
      cases s.readWord? (s.wordAt (address + 8) 2) with
      | none => exact .pure _
      | some mask =>
          exact .ite (fun _ => .note _ (.pure _)) fun _ => .groups _ _ fits

theorem Sequential.tables (addresses : List UInt64)
    (fits : ∀ later, seen ⊆ later → allowed e (depth + 2) later) :
    Sequential allowed seen fun read => tables s read e depth addresses := by
  induction addresses generalizing seen with
  | nil => exact .pure _
  | cons address rest ih =>
      refine .bind (.table _ fits) fun here later le => ?_
      cases here with
      | none => exact .pure _
      | some entries =>
          refine .bind (ih fun later' le' => fits later' (le.trans le')) fun there _ _ => ?_
          cases there with
          | none => exact .pure _
          | some others => exact .pure _

theorem Sequential.directory (base length : UInt64)
    (fits : ∀ later, seen ⊆ later → allowed e (depth + 2) later) :
    Sequential allowed seen fun read => directory s read e depth base length := by
  simp only [Extract.directory]
  cases s.readBytes? base (directoryBytes s length) with
  | none => exact .pure _
  | some data => exact .bind (.tables _ fits) fun _ _ _ => .pure _

theorem Sequential.swissMap (address : UInt64)
    (fits : ∀ later, seen ⊆ later → allowed e (depth + 2) later) :
    Sequential allowed seen fun read => swissMap s read e address depth := by
  unfold Extract.swissMap
  dsimp only
  cases s.readUnsigned? address 8 with
  | none => exact .pure _
  | some length =>
  cases s.readWord? (address + 8) with
  | none => exact .pure _
  | some seed =>
  cases s.readWord? (s.wordAt (address + 8) 1) with
  | none => exact .pure _
  | some base =>
  cases s.readWord? (s.wordAt (address + 8) 2) with
  | none => exact .pure _
  | some directoryLength =>
      refine .ite (fun _ => .pure _) fun _ => .ite (fun _ => .pure _) fun _ => ?_
      refine .ite (fun _ => .bind (.group _ fits) fun _ _ _ => .pure _) fun _ => ?_
      exact .noteIf _ _ (.bind (.directory _ _ fits) fun _ _ _ => .pure _)

end Maps

section Whole

/-- A type leads to another one: by a reference, or because the value of an interface may have any
type of the graph. -/
def Refers (s : Source) (t t' : GoType) : Prop :=
  (∃ r ∈ t.shape.refs, s.graph.deref? r = some t') ∨ ∃ place, s.graph.find? place = some t'

/-- What reading an object of a type may ask for, given the depth and what was visited before. Only
maps may ask for something without a new address and without less depth. -/
structure Allows (s : Source) (t : GoType) (depth : UInt32) (seen : Set UInt64) (t' : GoType)
    (depth' : UInt32) (seen' : Set UInt64) : Prop where
  refers : Refers s t t'
  grows : seen ⊆ seen'
  shallower : t.kind ≠ .map → seen' = seen → depth' < depth

variable {t e : GoType} {depth : UInt32}

theorem pred_lt (nonzero : depth ≠ 0) : depth - 1 < depth := by
  have positive : depth.toNat ≠ 0 := fun zero => nonzero (UInt32.toNat_inj.mp zero)
  rw [UInt32.lt_iff_toNat_lt, UInt32.toNat_sub_of_le _ _ ?_]
  · show depth.toNat - 1 < depth.toNat
    omega
  · rw [UInt32.le_iff_toNat_le]
    show 1 ≤ depth.toNat
    omega

theorem Allows.below {r : TypeRef GoType} (mem : r ∈ t.shape.refs)
    (element : s.graph.deref? r = some e) (deep : depth ≠ 0) {later : Set UInt64}
    (le : seen ⊆ later) : Allows s t depth seen e (depth - 1) later where
  refers := .inl ⟨r, mem, element⟩
  grows := le
  shallower _ _ := pred_lt deep

theorem Allows.fresh (refers : Refers s t e) {target : UInt64} (new : target ∉ seen) :
    Allows s t depth seen e depth (insert target seen) where
  refers := refers
  grows := Set.subset_insert target seen
  shallower _ same := absurd (same ▸ Set.mem_insert target seen) new

theorem Allows.part {r : TypeRef GoType} (map : t.kind = .map) (mem : r ∈ t.shape.refs)
    (element : s.graph.deref? r = some e) (depth' : UInt32) {later : Set UInt64}
    (le : seen ⊆ later) : Allows s t depth seen e depth' later where
  refers := .inl ⟨r, mem, element⟩
  grows := le
  shallower noMap := absurd map noMap

/-- All kinds of objects. -/
theorem sequential_step (t : GoType) (address : UInt64) (depth : UInt32) (seen : Set UInt64) :
    Sequential (Allows s t depth seen) seen fun read => step s read t address depth := by
  simp only [step]
  cases shape : t.shape with
  | basic kind => exact .pure _
  | chan elem direction => exact .pure _
  | func inputs outputs variadic => exact .pure _
  | array elem sliceType length =>
      cases element : s.graph.deref? elem with
      | none =>
          simp only [element]
          exact .pure _
      | some e =>
          simp only [element]
          exact .arrayOf _ _ _ fun deep later le =>
            .below (by simp [shape, Shape.refs]) element deep le
  | interface methods =>
      exact .interface _ _ fun place e target found new => .fresh (.inr ⟨place, found⟩) new
  | map key value bucket =>
      cases element : s.graph.deref? bucket with
      | none =>
          simp only [element]
          exact .pure _
      | some b =>
          have map : t.kind = .map := congrArg Shape.kind shape
          have mem : bucket ∈ t.shape.refs := by simp [shape, Shape.refs]
          simp only [element]
          exact .ite (fun _ => .swissMap _ fun later le => .part map mem element _ le)
            fun _ => .legacyMap _ fun later le => .part map mem element _ le
  | pointer elem =>
      cases element : s.graph.deref? elem with
      | none =>
          simp only [element]
          exact .pure _
      | some e =>
          simp only [element]
          exact .pointerTo _ fun target new =>
            .fresh (.inl ⟨elem, by simp [shape, Shape.refs], element⟩) new
  | slice elem =>
      exact .slice _ _ fun e element deep later le =>
        .below (by simp [shape, Shape.refs]) element deep le
  | struct declared =>
      refine .struct _ _ fun deep f mem e element later le => .below ?_ element deep le
      rw [shape]
      exact List.mem_map_of_mem mem

end Whole

section Levels

/-- Events never matter, and what was visited stays visited. -/
theorem regular_within (s : Source) (n : Nat) : Regular (within s n) := by
  induction n with
  | zero => exact ⟨fun none => (nomatch none), fun _ => rfl⟩
  | succ n ih =>
      constructor
      · intro t address depth trace v trace' come
        exact (sequential_step t address depth trace.seen).grows ih rfl come
      · intro t address depth trace trace' same
        exact (sequential_step t address depth trace.seen).congr ih rfl same.symm

theorem within_extends {n m : Nat} (le : n ≤ m) : Extends (within s n) (within s m) := by
  induction n generalizing m with
  | zero => exact fun _ _ _ _ _ come => nomatch come
  | succ n ih =>
      obtain ⟨m, rfl⟩ := Nat.exists_eq_add_of_lt le
      intro t address depth trace outcome come
      have step := (sequential_step t address depth trace.seen).mono (regular_within s n)
        (ih (Nat.le_add_right n m)) rfl come
      exact step

end Levels

end Extract

end GoInspect
