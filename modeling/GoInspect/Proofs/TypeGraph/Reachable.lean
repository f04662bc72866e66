import GoInspect.Proofs.GoType.References
import GoInspect.Proofs.TypeGraph.Basic
import GoInspect.Proofs.TypeGraph.Descriptor
import GoInspect.TypeGraph.Closure

/-!
# The types that others lead to

Reachability through descriptors is stated without a work list, and the loop over pending offsets is
shown to compute it. One invariant carries the loop: what is registered was reached, what is
registered leads only to offsets that are registered or still pending, and so do the seeds. Each of
the three things that may happen to a pending offset keeps it, and once nothing is pending it says
that the graph is the closure.
-/

namespace GoInspect

namespace TypeSection

variable {s : TypeSection}

/-- The bytes at an offset hold a descriptor. -/
def Valid (s : TypeSection) (offset : UInt64) : Prop := ∃ d, s.Accepted offset d

/-- The descriptor at one offset leads to another offset: by a reference into the section, or as the
place of the type of pointers to it. -/
inductive Leads (s : TypeSection) (offset : UInt64) : UInt64 → Prop where
  | child {d : Descriptor} {children : List UInt64} {address : UInt64} : s.Accepted offset d →
      d.shape.Children children → address ∈ children → s.low ≤ address → address < s.high →
      Leads s offset (address - s.low)
  | pointer {d : Descriptor} : s.Accepted offset d → d.ptrToThis ≠ 0 →
      d.ptrToThis ≠ 0xFFFFFFFF → Leads s offset d.ptrToThis

/-- An offset is reached from one of the links through descriptors only. -/
inductive Reached (s : TypeSection) (links : UInt64 → Prop) : UInt64 → Prop where
  | link {offset : UInt64} : links offset → s.Valid offset → Reached s links offset
  | step {offset next : UInt64} : Reached s links offset → s.Leads offset next → s.Valid next →
      Reached s links next

/-- Only the valid links count. -/
theorem Reached.of_links {links links' : UInt64 → Prop} {offset : UInt64}
    (h : s.Reached links offset) (valid : ∀ o, s.Valid o → links o → links' o) :
    s.Reached links' offset := by
  induction h with
  | link link here => exact .link (valid _ here link) here
  | step _ leads here ih => exact .step ih leads here

theorem Accepted.unique {offset : UInt64} {d d' : Descriptor} (h : s.Accepted offset d)
    (h' : s.Accepted offset d') : d = d' := by
  obtain ⟨_, raw, kind, header, named, known, formed, fields, pointer⟩ := h
  obtain ⟨_, raw', kind', header', named', known', formed', fields', pointer'⟩ := h'
  obtain rfl : raw = raw' := Option.some.inj (header.symm.trans header')
  have kinds : kind = kind' := by
    have found := TypeKind.ofIndex?_eq_some_iff.mpr known
    exact Option.some.inj (found.symm.trans (TypeKind.ofIndex?_eq_some_iff.mpr known'))
  subst kinds
  have names : d.header.name = d'.header.name := Option.some.inj (named.symm.trans named')
  have headers : d.header = d'.header := by rw [fields, fields', names]
  have shapes : d.shape = d'.shape := Option.some.inj (formed.symm.trans formed')
  have places : d.ptrToThis = d'.ptrToThis := pointer.trans pointer'.symm
  calc d = ⟨d.header, d.shape, d.ptrToThis⟩ := rfl
    _ = ⟨d'.header, d'.shape, d'.ptrToThis⟩ := by rw [headers, shapes, places]

theorem asked_of_read {offset place : UInt64} (h : s.read? place 4 = some offset) :
    s.Asked offset :=
  .inl (Bytes.read?_lt h)

theorem Accepted.asked_ptrToThis {offset : UInt64} {d : Descriptor} (h : s.Accepted offset d) :
    s.Asked d.ptrToThis := by
  obtain ⟨raw, _, header, _, _, _, _, pointer⟩ := h.content
  rw [pointer]
  exact asked_of_read (ptrToThis_read header)

theorem asked_of_contains (full : s.data.size = s.high.toNat - s.low.toNat) {address : UInt64}
    (above : s.low ≤ address) (below : address < s.high) : s.Asked (address - s.low) := by
  right
  rw [full, UInt64.toNat_sub_of_le _ _ above]
  rw [UInt64.le_iff_toNat_le] at above
  rw [UInt64.lt_iff_toNat_lt] at below
  omega

theorem Leads.asked (c : s.Complete) {offset next : UInt64} (h : s.Leads offset next) :
    s.Asked next := by
  cases h with
  | child _ _ _ above below => exact asked_of_contains c.full above below
  | pointer accepted _ _ => exact accepted.asked_ptrToThis

/-- The successors of a descriptor are the offsets that it leads to. -/
theorem mem_successors_iff {offset next : UInt64} {d : Descriptor} (h : s.Accepted offset d) :
    next ∈ s.successors d ↔ s.Leads offset next := by
  unfold successors Descriptor.pointerOffsets contains
  constructor
  · intro mem
    obtain mem | mem := List.mem_append.mp mem
    · obtain ⟨address, ref, rfl⟩ := List.mem_map.mp mem
      obtain ⟨ref, inside⟩ := List.mem_filter.mp ref
      simp only [Bool.and_eq_true, decide_eq_true_eq] at inside
      exact .child h (Shape.children_iff.mpr rfl) ref inside.1 inside.2
    · split at mem
      · cases mem
      · next present =>
        obtain rfl := List.mem_singleton.mp mem
        exact .pointer h (fun zero => present (.inl zero)) (fun full => present (.inr full))
  · intro leads
    cases leads with
    | child accepted children ref above below =>
        obtain rfl := accepted.unique h
        obtain rfl := Shape.children_iff.mp children
        refine List.mem_append_left _ (List.mem_map_of_mem (List.mem_filter.mpr ⟨ref, ?_⟩))
        simp only [Bool.and_eq_true, decide_eq_true_eq]
        exact ⟨above, below⟩
    | pointer accepted zero full =>
        obtain rfl := accepted.unique h
        refine List.mem_append_right _ ?_
        rw [if_neg (by simp [zero, full])]
        exact List.mem_singleton_self _

/-- What holds of the graph and of the pending offsets all along, given the offsets that the work
started from so far. -/
structure Invariant (s : TypeSection) (links seeds : UInt64 → Prop) (g : TypeGraph)
    (pending : List UInt64) : Prop where
  nodes : ∀ address t, g.find? address = some t →
    ∃ d, s.Accepted (address - s.low) d ∧ t = d.type s.version
  reached : ∀ offset, g.contains (s.low + offset) = true → s.Reached links offset
  asked : ∀ offset ∈ pending, s.Asked offset
  sound : ∀ offset ∈ pending, s.Valid offset → s.Reached links offset
  closed : ∀ offset next, g.contains (s.low + offset) = true → s.Leads offset next →
    s.Valid next → g.contains (s.low + next) = true ∨ next ∈ pending
  covered : ∀ offset, seeds offset → s.Valid offset →
    g.contains (s.low + offset) = true ∨ offset ∈ pending

namespace Invariant

variable {links seeds : UInt64 → Prop} {g : TypeGraph} {offset : UInt64} {rest : List UInt64}

/-- A pending offset may be passed over where it is registered already or holds no descriptor. -/
theorem skip (h : Invariant s links seeds g (offset :: rest))
    (done : s.Valid offset → g.contains (s.low + offset) = true) :
    Invariant s links seeds g rest where
  nodes := h.nodes
  reached := h.reached
  asked o mem := h.asked o (List.mem_cons_of_mem _ mem)
  sound o mem := h.sound o (List.mem_cons_of_mem _ mem)
  closed o next here leads valid := by
    obtain there | mem := h.closed o next here leads valid
    · exact .inl there
    · obtain rfl | mem := List.mem_cons.mp mem
      · exact .inl (done valid)
      · exact .inr mem
  covered o seed valid := by
    obtain there | mem := h.covered o seed valid
    · exact .inl there
    · obtain rfl | mem := List.mem_cons.mp mem
      · exact .inl (done valid)
      · exact .inr mem

theorem contains_register_self (d : Descriptor) :
    (s.register g offset d).contains (s.low + offset) = true := by
  rw [contains_register]
  simp

theorem contains_register_iff (d : Descriptor) (other : UInt64) :
    (s.register g offset d).contains (s.low + other) = true ↔
      other = offset ∨ g.contains (s.low + other) = true := by
  rw [contains_register, Bool.or_eq_true, decide_eq_true_eq, UInt64.add_right_inj, eq_comm]

/-- The descriptor at a pending offset is registered, and what it leads to becomes pending. -/
theorem register (c : s.Complete) (h : Invariant s links seeds g (offset :: rest))
    {d : Descriptor} (accepted : s.Accepted offset d) :
    Invariant s links seeds (s.register g offset d) (s.successors d ++ rest) where
  nodes address t found := by
    rw [TypeSection.register] at found
    rw [TypeGraph.find?_insert] at found
    split at found
    · next same =>
      refine ⟨d, ?_, (Option.some.inj found).symm⟩
      rwa [← same, UInt64.add_comm, UInt64.add_sub_cancel]
    · exact h.nodes address t found
  reached o here := by
    obtain rfl | before := (contains_register_iff d o).mp here
    · exact h.sound o (List.mem_cons_self ..) ⟨d, accepted⟩
    · exact h.reached o before
  asked o mem := by
    obtain new | old := List.mem_append.mp mem
    · exact ((mem_successors_iff accepted).mp new).asked c
    · exact h.asked o (List.mem_cons_of_mem _ old)
  sound o mem valid := by
    obtain new | old := List.mem_append.mp mem
    · have here := h.sound offset (List.mem_cons_self ..) ⟨d, accepted⟩
      exact .step here ((mem_successors_iff accepted).mp new) valid
    · exact h.sound o (List.mem_cons_of_mem _ old) valid
  closed o next here leads valid := by
    obtain rfl | before := (contains_register_iff d o).mp here
    · exact .inr (List.mem_append_left _ ((mem_successors_iff accepted).mpr leads))
    · obtain there | mem := h.closed o next before leads valid
      · exact .inl ((contains_register_iff d next).mpr (.inr there))
      · obtain rfl | mem := List.mem_cons.mp mem
        · exact .inl (contains_register_self d)
        · exact .inr (List.mem_append_right _ mem)
  covered o seed valid := by
    obtain there | mem := h.covered o seed valid
    · exact .inl ((contains_register_iff d o).mpr (.inr there))
    · obtain rfl | mem := List.mem_cons.mp mem
      · exact .inl (contains_register_self d)
      · exact .inr (List.mem_append_right _ mem)

/-- The loop keeps the invariant until nothing is pending. -/
theorem visit (c : s.Complete) {pending : List UInt64} (h : Invariant s links seeds g pending) :
    Invariant s links seeds (s.visit g pending).value [] := by
  fun_induction TypeSection.visit s g pending with
  | case1 g => exact h
  | case2 g offset rest registered ih => exact ih (h.skip fun _ => registered)
  | case3 g offset rest new e rejected after ih =>
      refine ih (h.skip ?_)
      rintro ⟨d, accepted⟩
      have asked := h.asked offset (List.mem_cons_self ..)
      rw [(decode_eq_ok_iff c asked).mpr accepted] at rejected
      cases rejected
  | case4 g offset rest new d decoded after ih =>
      have asked := h.asked offset (List.mem_cons_self ..)
      exact ih (h.register c ((decode_eq_ok_iff c asked).mp decoded))

/-- Another offset to start from. -/
theorem seed (h : Invariant s links seeds g []) (link : links offset) (asked : s.Asked offset) :
    Invariant s links (fun o => seeds o ∨ o = offset) g [offset] where
  nodes := h.nodes
  reached := h.reached
  asked o mem := List.mem_singleton.mp mem ▸ asked
  sound o mem valid := .link (List.mem_singleton.mp mem ▸ link) valid
  closed o next here leads valid := by
    obtain there | none := h.closed o next here leads valid
    · exact .inl there
    · cases none
  covered o started valid := by
    obtain old | rfl := started
    · obtain there | none := h.covered o old valid
      · exact .inl there
      · cases none
    · exact .inr (List.mem_singleton_self _)

/-- Once nothing is pending and every link was followed, the graph is the closure of the links. -/
theorem contains_iff_reached (h : Invariant s links links g []) (offset : UInt64) :
    g.contains (s.low + offset) = true ↔ s.Reached links offset := by
  constructor
  · exact h.reached offset
  · intro reached
    induction reached with
    | link link valid =>
        obtain there | none := h.covered _ link valid
        · exact there
        · cases none
    | step _ leads valid ih =>
        obtain there | none := h.closed _ _ ih leads valid
        · exact there
        · cases none

theorem contains_address_iff (h : Invariant s links links g []) (address : UInt64) :
    g.contains address = true ↔ s.Reached links (address - s.low) := by
  rw [← h.contains_iff_reached, UInt64.add_comm, UInt64.sub_add_cancel]

theorem isEmpty_iff (h : Invariant s links links g []) :
    g.isEmpty = true ↔ ∀ offset, ¬ s.Reached links offset := by
  rw [TypeGraph.isEmpty_iff]
  constructor
  · intro none offset reached
    have present := (h.contains_iff_reached offset).mpr reached
    rw [none] at present
    cases present
  · intro none address
    rw [Bool.eq_false_iff]
    intro present
    exact none _ ((h.contains_address_iff address).mp present)

end Invariant

end TypeSection

end GoInspect
