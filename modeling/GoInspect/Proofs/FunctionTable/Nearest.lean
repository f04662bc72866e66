import GoInspect.Proofs.FunctionTable.Lookup

/-!
# What looking a program counter up finds

A table answers by bisection over its functions, and a function by bisection over its stack deltas.
The same is said here without an order of search: a program counter lies in the function that begins
last before or at it, and of those that begin at one address the one that was listed last counts.
The stack delta is the last one in the list that is not above the program counter.
-/

namespace GoInspect

/-- The last member of a list that passes a test is the one behind which none does. -/
theorem getLast?_filter_eq_some_iff {α : Type} {p : α → Bool} {l : List α} {a : α} :
    (l.filter p).getLast? = some a ↔
      p a = true ∧ ∃ before after, l = before ++ a :: after ∧ ∀ b ∈ after, p b = false := by
  rw [List.getLast?_filter, List.find?_eq_some_iff_append]
  refine and_congr_right fun _ => ⟨?_, ?_⟩
  · rintro ⟨behind, front, reversed, fails⟩
    refine ⟨front.reverse, behind.reverse, ?_, fun b mem => ?_⟩
    · rw [← List.reverse_reverse l, reversed]
      simp
    · simpa using fails b (List.mem_reverse.mp mem)
  · rintro ⟨before, after, rfl, fails⟩
    refine ⟨after.reverse, before.reverse, by simp, fun b mem => ?_⟩
    rw [fails b (List.mem_reverse.mp mem)]
    rfl

/-- What a machine word is after a signed number was added to it. -/
theorem toNat_add_ofInt (a : UInt64) (n : Int) :
    ((a + UInt64.ofInt n).toNat : Int) = (a.toNat + n) % 2 ^ 64 := by
  have whole : ((UInt64.ofInt n).toNat : Int) = n % 2 ^ 64 := by
    rw [UInt64.ofInt, UInt64.toNat_ofNat']
    omega
  rw [UInt64.toNat_add]
  omega

section Order

theorem not_decide_lt (a b : UInt64) : (!decide (a < b)) = decide (b ≤ a) := by
  rw [← decide_not]
  exact decide_eq_decide.mpr UInt64.not_lt

/-- Elements in the order of their keys, which bisection relies on. -/
theorem rises_of_pairwise {α : Type} {key : α → UInt64} {l : List α} (pc : UInt64)
    (ordered : l.Pairwise fun a b => key a ≤ key b) :
    l.Pairwise fun a b => decide (pc < key a) = true → decide (pc < key b) = true :=
  ordered.imp fun le above =>
    decide_eq_true (UInt64.lt_of_lt_of_le (of_decide_eq_true above) le)

/-- Of elements in the order of their keys, bisection finds the last one that is not above. -/
theorem lastBefore?_key {α : Type} {key : α → UInt64} {xs : Array α} (pc : UInt64)
    (ordered : xs.toList.Pairwise fun a b => key a ≤ key b) :
    lastBefore? (fun x => decide (pc < key x)) xs =
      (xs.toList.filter fun x => key x ≤ pc).getLast? := by
  rw [lastBefore?_eq_getLast? (rises_of_pairwise pc ordered)]
  simp only [not_decide_lt]

end Order

/-- The last one of the stack deltas of a function that are not above a program counter. -/
def FunctionEntry.HasLast (f : FunctionEntry) (pc : UInt64) (d : StackDelta) : Prop :=
  d.pc ≤ pc ∧ ∃ before after, f.deltas.toList = before ++ d :: after ∧ ∀ e ∈ after, pc < e.pc

theorem FunctionEntry.deltaAt?_eq_some_iff {f : FunctionEntry} {pc : UInt64} {delta : Int}
    (ordered : f.deltas.toList.Pairwise fun d e => d.pc ≤ e.pc) :
    f.deltaAt? pc = some delta ↔ ∃ d, f.HasLast pc d ∧ d.delta = delta := by
  rw [deltaAt?, lastBefore?_key pc ordered, Option.map_eq_some_iff]
  refine exists_congr fun d => and_congr_left fun _ => ?_
  simp only [getLast?_filter_eq_some_iff, decide_eq_true_iff, decide_eq_false_iff_not,
    UInt64.not_le, HasLast]

theorem FunctionEntry.deltaAt?_eq_none_iff {f : FunctionEntry} {pc : UInt64}
    (ordered : f.deltas.toList.Pairwise fun d e => d.pc ≤ e.pc) :
    f.deltaAt? pc = none ↔ ∀ d ∈ f.deltas, pc < d.pc := by
  rw [deltaAt?, lastBefore?_key pc ordered, Option.map_eq_none_iff, List.getLast?_eq_none_iff,
    List.filter_eq_nil_iff]
  simp only [decide_eq_true_iff, UInt64.not_le, Array.mem_toList_iff]

namespace FunctionTable

section Covers

/-- A program counter lies in a function of a list. It does not lie before the entry, no other
function begins between the entry and the program counter, and none that is listed later has the
same entry. -/
structure Covers (functions : List FunctionEntry) (pc : UInt64) (f : FunctionEntry) : Prop where
  begun : f.entry ≤ pc
  nearest : ∀ g ∈ functions, g.entry ≤ pc → g.entry ≤ f.entry
  listed : ∃ before after, functions = before ++ f :: after ∧ ∀ g ∈ after, g.entry ≠ f.entry

variable {functions : List FunctionEntry} {pc : UInt64} {f g : FunctionEntry}

theorem last_of_listed (listed : ∃ before after, functions = before ++ f :: after ∧
    ∀ g ∈ after, g.entry ≠ f.entry) :
    (functions.filter fun g => g.entry = f.entry).getLast? = some f := by
  obtain ⟨before, after, parts, others⟩ := listed
  exact getLast?_filter_eq_some_iff.mpr
    ⟨decide_eq_true rfl, before, after, parts, fun g mem => decide_eq_false (others g mem)⟩

theorem Covers.mem (h : Covers functions pc f) : f ∈ functions := by
  obtain ⟨before, after, rfl, _⟩ := h.listed
  exact List.mem_append_right _ (List.mem_cons_self ..)

/-- A program counter lies in one function at most. -/
theorem Covers.unique (h : Covers functions pc f) (h' : Covers functions pc g) : f = g := by
  have same : f.entry = g.entry :=
    UInt64.le_antisymm (h'.nearest f h.mem h.begun) (h.nearest g h'.mem h'.begun)
  have last := last_of_listed h.listed
  rw [same, last_of_listed h'.listed] at last
  exact (Option.some.inj last).symm

theorem mem_sorted : f ∈ (sorted functions).toList ↔ f ∈ functions :=
  (perm_sorted functions).mem_iff

/-- The last function of a table that does not begin above a program counter. -/
theorem covers_of_last
    (last : ((sorted functions).toList.filter fun f => f.entry ≤ pc).getLast? = some f) :
    Covers functions pc f := by
  obtain ⟨earlier, parts⟩ := List.getLast?_eq_some_iff.mp last
  have ordered := (pairwise_sorted functions).filter fun f => f.entry ≤ pc
  rw [parts] at ordered
  have begun : f.entry ≤ pc := by
    have mem : f ∈ (sorted functions).toList.filter fun f => f.entry ≤ pc :=
      parts ▸ List.mem_append_right _ (List.mem_singleton_self f)
    exact of_decide_eq_true (List.mem_filter.mp mem).2
  refine ⟨begun, fun g mem before => ?_, ?_⟩
  · have inside : g ∈ earlier ++ [f] :=
      parts ▸ List.mem_filter.mpr ⟨mem_sorted.mpr mem, decide_eq_true before⟩
    obtain inside | inside := List.mem_append.mp inside
    · exact (List.pairwise_append.mp ordered).2.2 g inside f (List.mem_singleton_self f)
    · rw [List.mem_singleton.mp inside]
      exact UInt64.le_rfl
  · -- Functions with the entry of `f` stand in the table as they were listed.
    have same : functions.filter (fun g => g.entry = f.entry) =
        (earlier ++ [f]).filter fun g => g.entry = f.entry := by
      rw [← parts, List.filter_filter, ← filter_sort FunctionEntry.entry]
      refine List.filter_congr fun g _ => ?_
      by_cases equal : g.entry = f.entry
      · simp [equal, begun]
      · simp [equal]
    have kept : (functions.filter fun g => g.entry = f.entry).getLast? = some f := by
      rw [same, List.filter_append, List.filter_singleton, decide_eq_true rfl]
      exact List.getLast?_concat ..
    obtain ⟨_, before, after, parts, others⟩ := getLast?_filter_eq_some_iff.mp kept
    exact ⟨before, after, parts, fun g mem => of_decide_eq_false (others g mem)⟩

theorem last_eq_some_iff :
    ((sorted functions).toList.filter fun f => f.entry ≤ pc).getLast? = some f ↔
      Covers functions pc f := by
  refine ⟨covers_of_last, fun h => ?_⟩
  have mem : f ∈ (sorted functions).toList.filter fun f => f.entry ≤ pc :=
    List.mem_filter.mpr ⟨mem_sorted.mpr h.mem, decide_eq_true h.begun⟩
  obtain ⟨g, last⟩ := Option.ne_none_iff_exists'.mp
    (mt List.getLast?_eq_none_iff.mp (List.ne_nil_of_mem mem))
  rw [last, (covers_of_last last).unique h]

end Covers

section Table

variable {functions : List FunctionEntry} {t : FunctionTable} {pc sp : UInt64}

theorem find?_eq_some_iff (made : t.functions = sorted functions) {f : FunctionEntry}
    {offset : UInt64} :
    t.find? pc = some (f, offset) ↔
      pc ≤ t.maxPc ∧ Covers functions pc f ∧ offset = pc - f.entry := by
  rw [find?, made, lastBefore?_key pc (pairwise_sorted functions)]
  split
  · next behind => simp [UInt64.not_le.mpr behind]
  · next inside =>
    simp only [Option.map_eq_some_iff, last_eq_some_iff, Prod.mk.injEq, UInt64.not_lt.mp inside,
      true_and]
    constructor
    · rintro ⟨_, covers, rfl, rfl⟩
      exact ⟨covers, rfl⟩
    · rintro ⟨covers, rfl⟩
      exact ⟨f, covers, rfl, rfl⟩

theorem find?_eq_none_iff (made : t.functions = sorted functions) :
    t.find? pc = none ↔ t.maxPc < pc ∨ ∀ f ∈ functions, pc < f.entry := by
  rw [find?, made, lastBefore?_key pc (pairwise_sorted functions)]
  split
  · next behind => simp [behind]
  · next inside =>
    rw [Option.map_eq_none_iff, List.getLast?_eq_none_iff, List.filter_eq_nil_iff]
    simp only [mem_sorted, decide_eq_true_iff, UInt64.not_le, inside, false_or]

theorem frameBase?_of_find? {f : FunctionEntry} {offset : UInt64}
    (found : t.find? pc = some (f, offset)) :
    t.frameBase? pc sp = (f.deltaAt? pc).map fun delta => sp + UInt64.ofInt delta := by
  rw [frameBase?, found]

/-- A table finds what a scan of the list finds that it was made from. A program counter behind the
end of the text or before all entries lies in no function, any other one in the function that begins
nearest to it, the one that was listed last where several begin there. If the stack deltas of that
function are in the order of their program counters, the base of a frame lies as far above the stack
pointer, modulo the size of a word, as the last of the deltas says that are not above the program
counter. -/
theorem find?_frameBase?_sorted (made : t.functions = sorted functions) :
    (t.find? pc = none ↔ t.maxPc < pc ∨ ∀ f ∈ functions, pc < f.entry) ∧
    (∀ f offset, t.find? pc = some (f, offset) ↔
      pc ≤ t.maxPc ∧ Covers functions pc f ∧ offset = pc - f.entry) ∧
    (t.find? pc = none → t.frameBase? pc sp = none) ∧
    ∀ f offset, t.find? pc = some (f, offset) →
      (f.deltas.toList.Pairwise fun d e => d.pc ≤ e.pc) →
      (t.frameBase? pc sp = none ↔ ∀ d ∈ f.deltas, pc < d.pc) ∧
      ∀ base, t.frameBase? pc sp = some base ↔
        ∃ d, f.HasLast pc d ∧ (base.toNat : Int) = (sp.toNat + d.delta) % 2 ^ 64 := by
  refine ⟨find?_eq_none_iff made, fun f offset => find?_eq_some_iff made, fun none => ?_, ?_⟩
  · rw [frameBase?, none]
  · intro f offset found ordered
    rw [frameBase?_of_find? found]
    refine ⟨?_, fun base => ?_⟩
    · rw [Option.map_eq_none_iff, FunctionEntry.deltaAt?_eq_none_iff ordered]
    · rw [Option.map_eq_some_iff]
      simp only [FunctionEntry.deltaAt?_eq_some_iff ordered]
      constructor
      · rintro ⟨_, ⟨d, last, rfl⟩, rfl⟩
        exact ⟨d, last, toNat_add_ofInt sp d.delta⟩
      · rintro ⟨d, last, place⟩
        refine ⟨_, ⟨d, last, rfl⟩, UInt64.toNat_inj.mp (Int.ofNat.inj ?_)⟩
        exact (toNat_add_ofInt sp d.delta).trans place.symm

/-- Two functions with one entry, listed after one that begins later. -/
def twins : List FunctionEntry :=
  [⟨utf8 "main.late", 0x20, 0x20, #[]⟩, ⟨utf8 "main.first", 0x10, 0x10, #[]⟩,
    ⟨utf8 "main.second", 0x10, 0x10, #[⟨0x10, 0⟩, ⟨0x18, 8⟩, ⟨0x18, -16⟩]⟩]

def twinsTable : FunctionTable where
  functions := sorted twins
  maxPcFile := 0x30
  maxPc := 0x30
  version := ⟨20, 24⟩
  pointerWidth := 8
  minInstructionSize := 1

/-- Right before the later function, the last of the twins is found, and the last of its deltas. -/
theorem find?_frameBase?_twins :
    twinsTable.functions = sorted twins ∧
    twinsTable.find? 0x1F = some (⟨utf8 "main.second", 0x10, 0x10,
      #[⟨0x10, 0⟩, ⟨0x18, 8⟩, ⟨0x18, -16⟩]⟩, 0xF) ∧
    twinsTable.frameBase? 0x1F 0 = some 0xFFFFFFFFFFFFFFF0 := by
  have made : twinsTable.functions = sorted twins := rfl
  obtain ⟨_, here, _, frame⟩ := @find?_frameBase?_sorted twins twinsTable 0x1F 0 made
  have covers : Covers twins 0x1F ⟨utf8 "main.second", 0x10, 0x10,
      #[⟨0x10, 0⟩, ⟨0x18, 8⟩, ⟨0x18, -16⟩]⟩ := by
    refine ⟨by decide, by decide, twins.take 2, [], rfl, nofun⟩
  have found := (here _ 0xF).mpr ⟨by decide, covers, by decide⟩
  refine ⟨made, found, ((frame _ _ found (by decide)).2 _).mpr ⟨⟨0x18, -16⟩, ?_, by decide⟩⟩
  exact ⟨by decide, [⟨0x10, 0⟩, ⟨0x18, 8⟩], [], rfl, nofun⟩

end Table

end FunctionTable

end GoInspect
