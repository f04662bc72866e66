import GoInspect.Proofs.Memory
import GoInspect.Proofs.TypeGraph.Reachable
import GoInspect.TypeGraph.Module

/-!
# The graph of a module

Module data that is accepted fixes a type section and a table of links. The graph that is built from
them is the closure of the links, whatever stands in the section and however the links are ordered.
Its nodes are the descriptors at their addresses, with every reference resolved to the node at its
own address.
-/

namespace GoInspect

namespace TypeGraph

variable {s : TypeSection} {m : Memory}

/-- One of `count` type links can be read and holds the offset. -/
def LinkTo (m : Memory) (links : UInt64) (count : Nat) (offset : UInt64) : Prop :=
  ∃ i < count, m.readUnsigned (links + 4 * UInt64.ofNat i) 4 = .ok offset

/-- The module data at an offset of a section is that of the function table, and it describes a type
section and a table of type links. -/
structure Describes (t : FunctionTable) (m : Memory) (data : Bytes) (offset : UInt64)
    (s : TypeSection) (links count : UInt64) : Prop where
  version : s.version = t.version
  width : s.pointerWidth = t.pointerWidth
  content : m.readBytes s.low (s.high - s.low) = .ok s.data
  record : ∃ (layout : ModuleLayout) (first : FunctionEntry) (d : ModuleData),
    ModuleLayout.of? t.version = some layout ∧ t.functions[0]? = some first ∧
    ModuleData.read? data layout t.pointerWidth offset = some d ∧ d.agrees first t = true ∧
    d.typeBounds? m = some (s.low, s.high) ∧ links = m.toRuntime d.links ∧
    count = d.linkCount

/-- The graph of accepted module data is that of its section and links. -/
theorem Describes.ofModuleAt {t : FunctionTable} {data : Bytes} {offset links count : UInt64}
    (h : Describes t m data offset s links count) :
    (ofModuleAt t m data offset).value = (ofSection s m offset links count).value := by
  obtain ⟨layout, first, d, known, front, read, agrees, bounds, rfl, rfl⟩ := h.record
  have place : (⟨s.low, s.high, s.data, t.version, t.pointerWidth⟩ : TypeSection) = s := by
    rw [← h.version, ← h.width]
  rw [TypeGraph.ofModuleAt]
  simp only [known, front, read, agrees, bounds, h.content, if_true, place]

theorem LinkTo.asked {links offset : UInt64} {count : Nat} (h : LinkTo m links count offset) :
    s.Asked offset := by
  obtain ⟨i, _, read⟩ := h
  exact .inl (Memory.readUnsigned_lt read)

theorem linkTo_succ {links offset : UInt64} {count : Nat} :
    LinkTo m links (count + 1) offset ↔ LinkTo m links count offset ∨
      m.readUnsigned (links + 4 * UInt64.ofNat count) 4 = .ok offset := by
  constructor
  · rintro ⟨i, below, read⟩
    obtain earlier | rfl := Nat.lt_succ_iff_lt_or_eq.mp below
    · exact .inl ⟨i, earlier, read⟩
    · exact .inr read
  · rintro (⟨i, below, read⟩ | read)
    · exact ⟨i, Nat.lt_succ_of_lt below, read⟩
    · exact ⟨count, Nat.lt_succ_self count, read⟩

section Links

open TypeSection (Invariant)

/-- One link after another keeps the invariant. A link that cannot be read is no link. -/
theorem followLinks_invariant (c : s.Complete) {all : UInt64 → Prop} {links : UInt64}
    (count : Nat) {index : Nat} {g : TypeGraph}
    (h : Invariant s all (LinkTo m links index) g [])
    (covers : ∀ o, LinkTo m links (index + count) o → all o) :
    Invariant s all (LinkTo m links (index + count))
      (followLinks s m links count (UInt64.ofNat index) g).value [] := by
  induction count generalizing index g with
  | zero => exact h
  | succ count ih =>
      have next : UInt64.ofNat index + 1 = UInt64.ofNat (index + 1) := by
        rw [UInt64.ofNat_add]
        rfl
      have sum : index + (count + 1) = index + 1 + count := by omega
      rw [sum] at covers ⊢
      cases read : m.readUnsigned (links + 4 * UInt64.ofNat index) 4 with
      | error e =>
          have same : LinkTo m links (index + 1) = LinkTo m links index := by
            funext o
            simp [linkTo_succ, read]
          simp only [followLinks, read, Logged.value_bind, next]
          exact ih (same ▸ h) covers
      | ok offset =>
          have here : LinkTo m links (index + 1) offset := linkTo_succ.mpr (.inr read)
          have grown : LinkTo m links (index + 1) =
              fun o => LinkTo m links index o ∨ o = offset := by
            funext o
            simp [linkTo_succ, read, eq_comm]
          have link : all offset := by
            obtain ⟨i, below, read⟩ := here
            exact covers offset ⟨i, by omega, read⟩
          have visited := (h.seed link here.asked).visit c
          simp only [followLinks, read, Logged.value_bind, next]
          exact ih (grown ▸ visited) covers

theorem empty_invariant {all : UInt64 → Prop} {links : UInt64} :
    Invariant s all (LinkTo m links 0) empty [] where
  nodes _ _ found := by simp at found
  reached _ here := by simp at here
  asked _ none := nomatch none
  sound _ none := nomatch none
  closed _ _ here := by simp at here
  covered _ link := by
    obtain ⟨_, below, _⟩ := link
    cases below

/-- All links that can be read were followed, and nothing is pending. -/
theorem followLinks_closure (c : s.Complete) (links : UInt64) (count : Nat) :
    Invariant s (LinkTo m links count) (LinkTo m links count)
      (followLinks s m links count 0 empty).value [] := by
  have start : Invariant s (LinkTo m links count) (LinkTo m links 0) empty [] := empty_invariant
  have followed := followLinks_invariant c count start (by simp)
  rwa [Nat.zero_add] at followed

end Links

/-- A reference stores an address and leads to the node there, and nowhere where there is none. -/
structure PointsTo (g : TypeGraph) (address : UInt64) (r : TypeRef GoType) : Prop where
  stored : r.address = address
  resolved : r.target = if g.contains address then some (.node address) else none

theorem PointsTo.eq_node {g : TypeGraph} {address : UInt64} {r : TypeRef GoType}
    (h : g.PointsTo address r) (here : g.contains address = true) :
    r = ⟨address, some (.node address)⟩ := by
  obtain ⟨stored, resolved⟩ := h
  rw [here, if_pos rfl] at resolved
  cases r
  exact congrArg₂ TypeRef.mk stored resolved

/-- What a graph holds that is the closure of links in a section. -/
structure IsClosure (s : TypeSection) (links : UInt64 → Prop) (g : TypeGraph) : Prop where
  nodes : ∀ address, g.contains address = true ↔ s.Reached links (address - s.low)
  content : ∀ address node, g.find? address = some node →
    ∃ d, s.Accepted (address - s.low) d ∧ node.header = d.header ∧ node.version = s.version ∧
      d.shape.Pointwise g.PointsTo node.shape

/-- Resolving the references of the graph that the links lead to gives their closure. -/
theorem isClosure_resolved {links : UInt64 → Prop} {g : TypeGraph}
    (h : TypeSection.Invariant s links links g []) : IsClosure s links g.resolved where
  nodes address := by rw [contains_resolved, h.contains_address_iff]
  content address node found := by
    rw [find?_resolved] at found
    obtain ⟨t, registered, rfl⟩ := Option.map_eq_some_iff.mp found
    obtain ⟨d, accepted, rfl⟩ := h.nodes address t registered
    refine ⟨d, accepted, rfl, rfl, ?_⟩
    show d.shape.Pointwise _ ((d.shape.mapRefs _).mapRefs _)
    rw [Shape.mapRefs_mapRefs]
    exact Shape.pointwise_mapRefs (fun a => ⟨rfl, by simp⟩) d.shape

/-- The closure does not depend on how it was reached: links that reach the same offsets give the
same nodes. -/
theorem find?_resolved_eq {links links' : UInt64 → Prop} {g g' : TypeGraph}
    (h : TypeSection.Invariant s links links g [])
    (h' : TypeSection.Invariant s links' links' g' [])
    (same : ∀ o, s.Reached links o ↔ s.Reached links' o) (address : UInt64) :
    g.resolved.find? address = g'.resolved.find? address := by
  have contains_eq : g.contains = g'.contains := by
    funext a
    rw [Bool.eq_iff_iff, h.contains_address_iff, h'.contains_address_iff, same]
  have find_eq : g.find? address = g'.find? address := by
    cases found : g.find? address with
    | none =>
        have absent := contains_eq_isSome_find? g' address
        rw [← contains_eq, contains_eq_isSome_find?, found] at absent
        exact (Option.not_isSome_iff_eq_none.mp (by rw [← absent]; decide)).symm
    | some node =>
        have present : g'.contains address = true := by
          rw [← contains_eq, contains_eq_isSome_find?, found]
          rfl
        obtain ⟨node', found'⟩ := contains_iff_exists.mp present
        obtain ⟨d, accepted, rfl⟩ := h.nodes address node found
        obtain ⟨d', accepted', rfl⟩ := h'.nodes address node' found'
        rw [found', accepted.unique accepted']
  rw [find?_resolved, find?_resolved, find_eq, contains_eq]

theorem value_ofSection (offset links count : UInt64) :
    (ofSection s m offset links count).value =
      if (followLinks s m links count.toNat 0 empty).value.isEmpty then none
      else some (followLinks s m links count.toNat 0 empty).value.resolved := by
  rw [ofSection, Logged.value_bind]
  split <;> rfl

/-- Looking an address up in no graph is looking it up in an empty one. -/
theorem ofSection_bind_find? (offset links count address : UInt64) :
    (ofSection s m offset links count).value.bind (find? · address) =
      (followLinks s m links count.toNat 0 empty).value.resolved.find? address := by
  rw [value_ofSection]
  split
  · next none =>
    have absent := isEmpty_iff.mp none address
    rw [contains_eq_isSome_find?, Option.isSome_eq_false_iff, Option.isNone_iff_eq_none] at absent
    rw [find?_resolved, absent]
    rfl
  · rfl

/-- The graph that is built from accepted module data is exactly the closure of its type links:
there is one as soon as a link leads to a descriptor, and its nodes are the descriptors that the
links reach, with every reference resolved to the node at its own address. Other module data with
the same section and the same readable links to descriptors gives the same nodes, so that the order
of the links, repeated links and links that lead to no descriptor do not matter. -/
theorem ofModuleAt_isClosure {t : FunctionTable} {data : Bytes} {offset links count : UInt64}
    (described : Describes t m data offset s links count) (complete : s.Complete) :
    ((ofModuleAt t m data offset).value = none ↔
      ∀ o, ¬ s.Reached (LinkTo m links count.toNat) o) ∧
    (∀ g, (ofModuleAt t m data offset).value = some g →
      IsClosure s (LinkTo m links count.toNat) g) ∧
    ∀ (t' : FunctionTable) (m' : Memory) (data' : Bytes) (offset' links' count' : UInt64),
      Describes t' m' data' offset' s links' count' →
      (∀ o, s.Valid o → (LinkTo m links count.toNat o ↔ LinkTo m' links' count'.toNat o)) →
      ∀ address, (ofModuleAt t m data offset).value.bind (find? · address) =
        (ofModuleAt t' m' data' offset').value.bind (find? · address) := by
  have closure := followLinks_closure (m := m) complete links count.toNat
  refine ⟨?_, ?_, ?_⟩
  · rw [described.ofModuleAt, value_ofSection, ← closure.isEmpty_iff]
    split <;> simp_all
  · intro g built
    rw [described.ofModuleAt, value_ofSection] at built
    split at built
    · cases built
    · cases built
      exact isClosure_resolved closure
  · intro t' m' data' offset' links' count' described' same address
    have closure' := followLinks_closure (m := m') complete links' count'.toNat
    have reached : ∀ o, s.Reached (LinkTo m links count.toNat) o ↔
        s.Reached (LinkTo m' links' count'.toNat) o := by
      intro o
      constructor
      · intro h
        exact h.of_links fun o valid => (same o valid).mp
      · intro h
        exact h.of_links fun o valid => (same o valid).mpr
    rw [described.ofModuleAt, described'.ofModuleAt, ofSection_bind_find?, ofSection_bind_find?]
    exact find?_resolved_eq closure closure' reached address

/-- A type section with three types: a slice of bytes, bytes, and pointers to bytes. Bytes are the
elements of the slice, the place of the type of pointers stands with them, and these lead back. -/
def byteSlice : TypeSection where
  low := 0x1000
  high := 0x1074
  data := (([12, 4, 0x1234, 0x17040400, 0, 0, 104, 0, 0x1024,
    1, 0, 0x5678, 0x08010100, 0, 0, 108, 68,
    4, 4, 0x9ABC, 0x16040400, 0, 0, 112, 0, 0x1024].flatMap (littleEndianBytes 4)) ++
    [0, 0, 1, 83, 0, 0, 1, 66, 0, 0, 1, 80]).toArray
  version := ⟨7, 7⟩
  pointerWidth := 4

/-- Module data that describes the section and one type link. -/
def byteSliceModule : Bytes :=
  ((List.replicate 10 0 ++ [0x400, 0x500] ++ List.replicate 13 0 ++ [0x1000, 0x1074, 0x2000, 1]
    : List Nat).flatMap (littleEndianBytes 4)).toArray

/-- A memory that holds the section and its link, which leads to the slice, and is not relocated. -/
def byteSliceMemory : Memory where
  readBytes address length :=
    if address = 0x1000 ∧ length = 0x74 then .ok byteSlice.data
    else if address = 0x2000 ∧ length = 4 then .ok #[0, 0, 0, 0]
    else .error ⟨.unmapped, address, length⟩
  readCString address limit := .error ⟨.unmapped, address, limit.toUInt64⟩
  toRuntime address := address

/-- A function table whose bounds of the text are those of the module data. -/
def byteSliceTable : FunctionTable where
  functions := #[⟨utf8 "main.main", 0x400, 0x400, #[]⟩]
  maxPcFile := 0x500
  maxPc := 0x500
  version := ⟨7, 7⟩
  pointerWidth := 4
  minInstructionSize := 1

theorem byteSlice_described :
    Describes byteSliceTable byteSliceMemory byteSliceModule 0 byteSlice 0x2000 1 where
  version := rfl
  width := rfl
  content := rfl
  record := ⟨⟨10, 11, 25, 26, 27, 28⟩, ⟨utf8 "main.main", 0x400, 0x400, #[]⟩,
    ⟨0x400, 0x500, 0x1000, 0x1074, 0x2000, 1⟩, by decide, by decide, by decide, by decide,
    by decide, rfl, rfl⟩

theorem byteSlice_complete : byteSlice.Complete where
  width := .inl rfl
  full := by decide
  small := by decide

theorem byteSlice_accepted {offset : UInt64} {d : TypeSection.Descriptor}
    (small : offset.toNat < 2 ^ 32) (decoded : byteSlice.decode offset = .ok d) :
    byteSlice.Accepted offset d :=
  (TypeSection.decode_eq_ok_iff byteSlice_complete (.inl small)).mp decoded

theorem byteSlice_slice : byteSlice.Accepted 0
    ⟨⟨12, 4, 0x1234, 0, 4, 4, 0x17, utf8 "S"⟩, .slice 0x1024, 0⟩ :=
  byteSlice_accepted (by decide) (by decide +kernel)

theorem byteSlice_byte : byteSlice.Accepted 36
    ⟨⟨1, 0, 0x5678, 0, 1, 1, 8, utf8 "B"⟩, .basic .uint8, 68⟩ :=
  byteSlice_accepted (by decide) (by decide +kernel)

theorem byteSlice_pointer : byteSlice.Accepted 68
    ⟨⟨4, 4, 0x9ABC, 0, 4, 4, 0x16, utf8 "P"⟩, .pointer 0x1024, 0⟩ :=
  byteSlice_accepted (by decide) (by decide +kernel)

/-- One link to the slice makes a graph of all three types. The element is found by the reference of
the slice, and the reference was resolved to it. -/
theorem ofModuleAt_byteSlice :
    Describes byteSliceTable byteSliceMemory byteSliceModule 0 byteSlice 0x2000 1 ∧
    byteSlice.Complete ∧
    ∃ g, (ofModuleAt byteSliceTable byteSliceMemory byteSliceModule 0).value = some g ∧
      IsClosure byteSlice (LinkTo byteSliceMemory 0x2000 1) g ∧
      (∃ node, g.find? 0x1000 = some node ∧
        node.shape = .slice ⟨0x1024, some (.node 0x1024)⟩) ∧
      g.contains 0x1024 = true ∧ g.contains 0x1044 = true := by
  refine ⟨byteSlice_described, byteSlice_complete, ?_⟩
  obtain ⟨absent, present, _⟩ := ofModuleAt_isClosure byteSlice_described byteSlice_complete
  have slice : byteSlice.Reached (LinkTo byteSliceMemory 0x2000 1) 0 :=
    .link ⟨0, by decide, rfl⟩ ⟨_, byteSlice_slice⟩
  have byte : byteSlice.Reached (LinkTo byteSliceMemory 0x2000 1) 36 :=
    .step slice (.child byteSlice_slice (.slice 0x1024) (List.mem_singleton_self 0x1024)
      (by decide) (by decide)) ⟨_, byteSlice_byte⟩
  have pointer : byteSlice.Reached (LinkTo byteSliceMemory 0x2000 1) 68 :=
    .step byte (.pointer byteSlice_byte (by decide) (by decide)) ⟨_, byteSlice_pointer⟩
  cases built : (ofModuleAt byteSliceTable byteSliceMemory byteSliceModule 0).value with
  | none => exact absurd slice (absent.mp built 0)
  | some g =>
      have closure := present g built
      have element : g.contains 0x1024 = true := (closure.nodes 0x1024).mpr byte
      refine ⟨g, rfl, closure, ?_, element, (closure.nodes 0x1044).mpr pointer⟩
      obtain ⟨node, found⟩ := contains_iff_exists.mp ((closure.nodes 0x1000).mpr slice)
      obtain ⟨d, accepted, _, _, shape⟩ := closure.content 0x1000 node found
      obtain rfl := accepted.unique byteSlice_slice
      refine ⟨node, found, ?_⟩
      generalize node.shape = resolved at shape ⊢
      cases shape with
      | slice points => rw [points.eq_node element]

end TypeGraph

end GoInspect
