import GoInspect.Extract
import GoInspect.GoType.Syntax
import GoInspect.Proofs.Memory

/-!
# Reading stays where pointers reach

The addresses that reading computes wrap around like all machine words, and most of them are up to
the inspected program. Every read is still one that pointers of the program reach: two memories that
agree on those give the same values, whatever they answer to an empty read or to one that wraps
around.
-/

namespace GoInspect

/-- Two memories give the same bytes, or both none, to every read that pointers of a width reach. -/
def Memory.AgreeWithin (p : UInt32) (m m' : Memory) : Prop :=
  ∀ address length : UInt64, 1 ≤ length.toNat →
    address.toNat + length.toNat ≤ 2 ^ (8 * p.toNat) →
    (m.readBytes address length).toOption = (m'.readBytes address length).toOption

/-- A number is read from its bytes, and nothing else of the memory matters. -/
theorem Memory.readUnsigned_congr {m m' : Memory} {address : UInt64} {width : UInt32}
    (same : (m.readBytes address width.toUInt64).toOption =
      (m'.readBytes address width.toUInt64).toOption) :
    (m.readUnsigned address width).toOption = (m'.readUnsigned address width).toOption := by
  rw [readUnsigned, readUnsigned]
  split
  · rfl
  · generalize m.readBytes address width.toUInt64 = read at same
    generalize m'.readBytes address width.toUInt64 = read' at same
    cases read with
    | error e =>
        cases read' with
        | error e' => rfl
        | ok bytes => cases same
    | ok bytes =>
        cases read' with
        | error e' => cases same
        | ok bytes' =>
            cases same
            rfl

namespace Extract

/-- The same surroundings with another memory. -/
def Source.on (s : Source) (m : Memory) : Source := { s with memory := m }

/-- Another memory takes nothing away from the reads of a source, and adds nothing to them. -/
structure Source.Alike (s : Source) (m : Memory) : Prop where
  readUnsigned? : (s.on m).readUnsigned? = s.readUnsigned?
  readBytes? : (s.on m).readBytes? = s.readBytes?

namespace Source

variable {s : Source} {m : Memory}

/-- The reads of a source are guarded, so that agreement where pointers reach is enough. -/
theorem alike_of_agreeWithin (some : 0 < s.pointerWidth.toNat) (few : s.pointerWidth.toNat ≤ 8)
    (agree : s.memory.AgreeWithin s.pointerWidth m) : s.Alike m := by
  constructor
  · funext address width
    rw [Source.readUnsigned?, Source.readUnsigned?]
    by_cases fits : fitsAddressSpace address width.toUInt64 s.pointerWidth = true
    · obtain ⟨nonempty, inside⟩ := (fitsAddressSpace_iff some few).mp fits
      exact (if_pos fits).trans
        ((Memory.readUnsigned_congr (agree _ _ nonempty inside)).symm.trans (if_pos fits).symm)
    · exact (if_neg fits).trans (if_neg fits).symm
  · funext address length
    rw [Source.readBytes?, Source.readBytes?]
    by_cases fits : fitsAddressSpace address length s.pointerWidth = true
    · obtain ⟨nonempty, inside⟩ := (fitsAddressSpace_iff some few).mp fits
      exact (if_pos fits).trans ((agree _ _ nonempty inside).symm.trans (if_pos fits).symm)
    · exact (if_neg fits).trans (if_neg fits).symm

theorem Alike.readWord? (alike : s.Alike m) : (s.on m).readWord? = s.readWord? := by
  funext address
  exact congrFun (congrFun alike.readUnsigned? address) s.pointerWidth

end Source

variable {s : Source} {m : Memory}

section Objects

theorem Source.Alike.integer (alike : s.Alike m) : integer (s.on m) = integer s := by
  funext address width isSigned
  rw [Extract.integer, Extract.integer, alike.readUnsigned?]

theorem Source.Alike.single? (alike : s.Alike m) : single? (s.on m) = single? s := by
  funext address
  rw [Extract.single?, Extract.single?, alike.readUnsigned?]

theorem Source.Alike.double? (alike : s.Alike m) : double? (s.on m) = double? s := by
  funext address
  rw [Extract.double?, Extract.double?, alike.readUnsigned?]

theorem Source.Alike.bool (alike : s.Alike m) : bool (s.on m) = bool s := by
  funext address
  rw [Extract.bool, Extract.bool, alike.readUnsigned?]

theorem Source.Alike.word (alike : s.Alike m) : word (s.on m) = word s := by
  funext address
  rw [Extract.word, Extract.word, alike.readWord?]

theorem Source.Alike.string (alike : s.Alike m) : string (s.on m) = string s := by
  funext address
  simp only [Extract.string, alike.readWord?, alike.readBytes?]
  rfl

theorem Source.Alike.basic (alike : s.Alike m) (kind : BasicKind) :
    basic (s.on m) kind = basic s kind := by
  funext address
  cases kind <;>
    simp only [Extract.basic, alike.integer, alike.single?, alike.double?, alike.bool, alike.word,
      alike.string] <;> rfl

variable (read : Reader)

theorem Source.Alike.pointerTo (alike : s.Alike m) :
    pointerTo (s.on m) read = pointerTo s read := by
  funext type address depth
  simp only [Extract.pointerTo, alike.readWord?]

theorem Source.Alike.interface (alike : s.Alike m) :
    interface (s.on m) read = interface s read := by
  funext hasMethods address depth
  simp only [Extract.interface, dynamicType?, alike.readWord?, alike.pointerTo]
  rfl

theorem Source.Alike.slice (alike : s.Alike m) : slice (s.on m) read = slice s read := by
  funext type address depth
  simp only [Extract.slice, alike.readWord?]
  rfl

theorem fields_on (address : UInt64) (depth : UInt32) (declared : List (Field (TypeRef GoType))) :
    fields (s.on m) read address depth declared = fields s read address depth declared := by
  induction declared with
  | nil => rfl
  | cons f rest ih =>
      simp only [fields, ih]
      rfl

theorem struct_on : struct (s.on m) read = struct s read := by
  funext declared address depth
  simp only [struct, fields_on]

end Objects

section Maps

variable (read : Reader) (type : GoType) (depth : UInt32)

theorem Source.Alike.withOverflow (alike : s.Alike m) (overflowOffset : UInt64) :
    withOverflow (s.on m) read type overflowOffset depth =
      withOverflow s read type overflowOffset depth := by
  funext more bucket address
  rw [Extract.withOverflow, Extract.withOverflow, alike.readWord?]

theorem Source.Alike.bucketChain (alike : s.Alike m) (overflowOffset : UInt64) (limit : Nat) :
    bucketChain (s.on m) read type overflowOffset depth limit =
      bucketChain s read type overflowOffset depth limit := by
  induction limit with
  | zero => rw [Extract.bucketChain, Extract.bucketChain, alike.withOverflow]
  | succ limit ih => rw [Extract.bucketChain, Extract.bucketChain, alike.withOverflow, ih]

theorem Source.Alike.buckets (alike : s.Alike m) (overflowOffset stride wanted : UInt64)
    (count : Nat) (address : UInt64) (found : Nat) :
    buckets (s.on m) read type overflowOffset stride wanted depth count address found =
      buckets s read type overflowOffset stride wanted depth count address found := by
  induction count generalizing address found with
  | zero => rfl
  | succ count ih =>
      simp only [Extract.buckets, alike.bucketChain, ih]
      rfl

theorem Source.Alike.legacyMap (alike : s.Alike m) :
    legacyMap (s.on m) read type = legacyMap s read type := by
  funext address depth
  simp only [Extract.legacyMap, alike.readWord?, alike.readUnsigned?, alike.buckets]
  rfl

theorem Source.Alike.table (alike : s.Alike m) :
    table (s.on m) read type depth = table s read type depth := by
  funext address
  simp only [Extract.table, alike.readWord?]
  rfl

theorem Source.Alike.tables (alike : s.Alike m) (addresses : List UInt64) :
    tables (s.on m) read type depth addresses = tables s read type depth addresses := by
  induction addresses with
  | nil => rfl
  | cons address rest ih => simp only [Extract.tables, alike.table, ih]

theorem Source.Alike.directory (alike : s.Alike m) :
    directory (s.on m) read type depth = directory s read type depth := by
  funext base length
  simp only [Extract.directory, alike.readBytes?, alike.tables]
  rfl

theorem Source.Alike.swissMap (alike : s.Alike m) :
    swissMap (s.on m) read type = swissMap s read type := by
  funext address depth
  simp only [Extract.swissMap, alike.readWord?, alike.readUnsigned?, alike.directory]
  rfl

end Maps

/-- One step of reading gives the same, whatever is done with the objects inside. -/
theorem Source.Alike.step (alike : s.Alike m) (read : Reader) :
    step (s.on m) read = step s read := by
  funext t address depth
  simp only [Extract.step, alike.basic, alike.pointerTo, alike.interface, alike.slice,
    alike.swissMap, alike.legacyMap, struct_on]
  rfl

theorem Source.Alike.within (alike : s.Alike m) (limit : Nat) :
    within (s.on m) limit = within s limit := by
  induction limit with
  | zero => rfl
  | succ limit ih => rw [Extract.within, Extract.within, alike.step, ih]

/-- Reading never looks outside the address space of the program. A read is let through exactly if
it is not empty and ends no later than the addresses that pointers reach, and memories that agree on
such reads give the same values, the same visited addresses and the same events, to every depth of
nesting. -/
theorem within_addressSpace {p : UInt32} (some : 0 < p.toNat) (few : p.toNat ≤ 8) :
    (∀ address length : UInt64, fitsAddressSpace address length p ↔
      1 ≤ length.toNat ∧ address.toNat + length.toNat ≤ 2 ^ (8 * p.toNat)) ∧
    ∀ m m' : Memory, m.AgreeWithin p m' →
      ∀ (graph : TypeGraph) (settings : Settings) (limit : Nat) (t : GoType) (address : UInt64)
        (depth : UInt32) (trace : Trace),
        within ⟨m, p, graph, settings⟩ limit t address depth trace =
          within ⟨m', p, graph, settings⟩ limit t address depth trace := by
  refine ⟨fun _ _ => fitsAddressSpace_iff some few, ?_⟩
  intro m m' agree graph settings limit t address depth trace
  have alike : (⟨m, p, graph, settings⟩ : Source).Alike m' :=
    Source.alike_of_agreeWithin some few agree
  exact (congrFun (congrFun (congrFun (congrFun (alike.within limit) t) address) depth) trace).symm

section Sample

open TypeSyntax (make reference)

/-- The last four bytes that pointers of four bytes reach, and nothing else. -/
def topWord : Memory where
  readBytes address length :=
    if address = 0xFFFFFFFC ∧ length = 4 then .ok #[7, 0, 0, 0x80]
    else .error ⟨.unmapped, address, length⟩
  readCString address limit := .error ⟨.unmapped, address, limit.toUInt64⟩
  toRuntime := id

/-- The same memory, which answers zeros to all that pointers do not reach. -/
def topWordAndBeyond : Memory :=
  { topWord with
    readBytes := fun address length =>
      if fitsAddressSpace address length 4 then topWord.readBytes address length
      else .ok (Array.replicate length.toNat 0) }

theorem topWord_agreeWithin : topWord.AgreeWithin 4 topWordAndBeyond := by
  intro address length nonempty inside
  have fits := (fitsAddressSpace_iff (by decide) (by decide)).mpr ⟨nonempty, inside⟩
  exact (congrArg Except.toOption (if_pos fits)).symm

def twoIntegers : GoType :=
  let integer := make ⟨20, 20⟩ (utf8 "int32") (.basic .int32) 4 4
  make ⟨20, 20⟩ (utf8 "main.Pair")
    (.struct [⟨utf8 "a", reference (.built integer), 0⟩, ⟨utf8 "b", reference (.built integer), 4⟩])
    8 4

/-- A struct that begins in the last word has one field that can be read. The other one lies where
only one of the memories has bytes, and neither shows it. -/
theorem within_addressSpace_topWord :
    (0 < (4 : UInt32).toNat ∧ (4 : UInt32).toNat ≤ 8 ∧ topWord.AgreeWithin 4 topWordAndBeyond) ∧
      topWordAndBeyond.readBytes 0x100000000 4 = .ok #[0, 0, 0, 0] ∧
      within ⟨topWordAndBeyond, 4, .empty, {}⟩ 2 twoIntegers 0xFFFFFFFC 1 {} =
        some (.mk (Value.meanConfidence [.mk certain (.integer 0xFFFFFFFF80000007 true)])
          (.struct [utf8 "a"] [.mk certain (.integer 0xFFFFFFFF80000007 true)]), {}) := by
  refine ⟨⟨by decide, by decide, topWord_agreeWithin⟩, by decide, ?_⟩
  exact ((within_addressSpace (p := 4) (by decide) (by decide)).2 topWord topWordAndBeyond
    topWord_agreeWithin .empty {} 2 twoIntegers 0xFFFFFFFC 1 {}).symm.trans rfl

end Sample

end Extract

end GoInspect
