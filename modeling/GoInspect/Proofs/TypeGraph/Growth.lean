import GoInspect.Proofs.TypeGraph.Basic
import GoInspect.TypeGraph.Module

/-!
# How a type graph grows

A graph grows in single steps. The next pending offset is taken up and is known already, rejected,
or registered with what it leads to put in front of the rest; once nothing is pending, the next type
link is read. No sequence of steps goes on for ever: a registration takes a place of the section
that was free, and every other step shortens what is left to do. One record of what the steps have
registered so far carries the rest. It says that no address is registered twice, so that no node is
ever replaced, and it counts the steps.
-/

namespace GoInspect

namespace TypeGraph

open TypeSection (Descriptor)

/-- A graph that still grows. -/
structure Growth where
  graph : TypeGraph
  /-- The offsets to be taken up, the next one first. -/
  pending : List UInt64
  /-- The index of the next type link. -/
  index : UInt64
  /-- How many type links are left. -/
  links : Nat

namespace Growth

def start (links : Nat) : Growth := ⟨.empty, [], 0, links⟩

def Finished (w : Growth) : Prop := w.pending = [] ∧ w.links = 0

/-- What one step does. -/
inductive Action where
  /-- A type link is read, and its offset becomes pending. -/
  | link (offset : UInt64)
  /-- A type link cannot be read. -/
  | unreadable (index : UInt64) (error : ReadError)
  /-- The type at a pending offset is registered already. -/
  | known (offset : UInt64)
  /-- There is no descriptor at a pending offset. -/
  | rejected (offset : UInt64) (reason : TypeSection.Rejection)
  /-- The descriptor at a pending offset is registered. -/
  | registered (offset : UInt64) (d : Descriptor)

/-- The offset and the descriptor that a step registers. -/
def Action.registration? : Action → Option (UInt64 × Descriptor)
  | .registered offset d => some (offset, d)
  | _ => none

/-- What is registered by some steps, in their order. -/
def registrations (actions : List Action) : List (UInt64 × Descriptor) :=
  actions.filterMap Action.registration?

def Action.pushes (s : TypeSection) : Action → Nat
  | .link _ => 1
  | .registered _ d => (s.successors d).length
  | _ => 0

/-- What a step is worth in the log. -/
def Action.events (s : TypeSection) : Action → List Event
  | .unreadable index e => [.typeLinkUnreadable index e]
  | .rejected _ e => e.events
  | .registered _ d => s.escapes d
  | _ => []

variable (s : TypeSection) (m : Memory) (table : UInt64)

/-- A graph of a section grows by one step. The type links stand in a table. -/
inductive Step : Growth → Action → Growth → Prop where
  | known {g : TypeGraph} {offset : UInt64} {rest : List UInt64} {i : UInt64} {n : Nat} :
      g.contains (s.low + offset) = true →
      Step ⟨g, offset :: rest, i, n⟩ (.known offset) ⟨g, rest, i, n⟩
  | rejected {g : TypeGraph} {offset : UInt64} {rest : List UInt64} {i : UInt64} {n : Nat}
      {e : TypeSection.Rejection} :
      g.contains (s.low + offset) = false → s.decode offset = .error e →
      Step ⟨g, offset :: rest, i, n⟩ (.rejected offset e) ⟨g, rest, i, n⟩
  | registered {g : TypeGraph} {offset : UInt64} {rest : List UInt64} {i : UInt64} {n : Nat}
      {d : Descriptor} :
      g.contains (s.low + offset) = false → s.decode offset = .ok d →
      Step ⟨g, offset :: rest, i, n⟩ (.registered offset d)
        ⟨s.register g offset d, s.successors d ++ rest, i, n⟩
  | link {g : TypeGraph} {i : UInt64} {n : Nat} {offset : UInt64} :
      m.readUnsigned (table + 4 * i) 4 = .ok offset →
      Step ⟨g, [], i, n + 1⟩ (.link offset) ⟨g, [offset], i + 1, n⟩
  | unreadable {g : TypeGraph} {i : UInt64} {n : Nat} {e : ReadError} :
      m.readUnsigned (table + 4 * i) 4 = .error e →
      Step ⟨g, [], i, n + 1⟩ (.unreadable i e) ⟨g, [], i + 1, n⟩

/-- A graph grows by some steps, one after another. -/
inductive Run : Growth → List Action → Growth → Prop where
  | done {w : Growth} : Run w [] w
  | step {w w' w'' : Growth} {a : Action} {actions : List Action} :
      Step s m table w a w' → Run w' actions w'' → Run w (a :: actions) w''

variable {s m table} {w w' w'' : Growth} {a b : Action} {actions more : List Action}

section Steps

/-- What is done next is fixed. -/
theorem Step.unique (h : Step s m table w a w') (h' : Step s m table w b w'') :
    a = b ∧ w' = w'' := by
  cases h <;> cases h' <;> simp_all

/-- Steps are taken until nothing is left to do. -/
theorem exists_step_of_not_finished (h : ¬ w.Finished) : ∃ a w', Step s m table w a w' := by
  obtain ⟨g, pending, i, n⟩ := w
  cases pending with
  | cons offset rest =>
      cases here : g.contains (s.low + offset) with
      | true => exact ⟨_, _, .known here⟩
      | false =>
          cases decoded : s.decode offset with
          | error e => exact ⟨_, _, .rejected here decoded⟩
          | ok d => exact ⟨_, _, .registered here decoded⟩
  | nil =>
      cases n with
      | zero => exact absurd ⟨rfl, rfl⟩ h
      | succ n =>
          cases read : m.readUnsigned (table + 4 * i) 4 with
          | error e => exact ⟨_, _, .unreadable read⟩
          | ok offset => exact ⟨_, _, .link read⟩

theorem Finished.not_step (h : w.Finished) : ¬ Step s m table w a w' := by
  intro step
  obtain ⟨none, last⟩ := h
  cases step <;> simp_all

/-- A registration inserts a node where there was none. -/
theorem Step.registered_inserts {o : UInt64} {d : Descriptor}
    (h : Step s m table w (.registered o d) w') :
    w.graph.find? (s.low + o) = none ∧ w'.graph.find? (s.low + o) = some (d.type s.version) ∧
      ∀ address, address ≠ s.low + o → w'.graph.find? address = w.graph.find? address := by
  cases h with
  | registered new _ =>
      refine ⟨?_, ?_, fun address other => ?_⟩
      · rw [contains_eq_isSome_find?] at new
        exact Option.isNone_iff_eq_none.mp (by simpa using new)
      · rw [TypeSection.register, find?_insert, if_pos rfl]
      · rw [TypeSection.register, find?_insert, if_neg other.symm]

/-- What is left to do: the type links, then the free places of the section, then the pending
offsets. -/
def measure (s : TypeSection) (w : Growth) : Nat × Nat × Nat :=
  (w.links, s.free w.graph, w.pending.length)

/-- Every step leaves less to do, a registration because it takes a free place, however much it
makes pending. -/
theorem Step.measure_lt (h : Step s m table w a w') :
    Prod.Lex (· < ·) (Prod.Lex (· < ·) (· < ·)) (measure s w') (measure s w) := by
  cases h with
  | known _ | rejected _ _ => exact .right _ (.right _ (Nat.lt_succ_self _))
  | registered new decoded =>
      exact .right _ (.left _ _ (s.free_register_lt new (s.decode_inside decoded)))
  | link _ | unreadable _ => exact .left _ _ (Nat.lt_succ_self _)

/-- No graph grows for ever. -/
theorem wellFounded_step : WellFounded fun w' w => ∃ a, Step s m table w a w' := by
  have lex : WellFounded (Prod.Lex (· < ·) (Prod.Lex (· < ·) (· < ·)) :
      Nat × Nat × Nat → Nat × Nat × Nat → Prop) :=
    (Prod.lex Nat.lt_wfRel (Prod.lex Nat.lt_wfRel Nat.lt_wfRel)).wf
  refine Subrelation.wf (fun step => ?_) (InvImage.wf (measure s) lex)
  obtain ⟨_, step⟩ := step
  exact step.measure_lt

end Steps

section Runs

theorem Run.append (h : Run s m table w actions w') (h' : Run s m table w' more w'') :
    Run s m table w (actions ++ more) w'' := by
  induction h with
  | done => exact h'
  | step first _ ih => exact .step first (ih h')

/-- Steps that were taken are the first ones of all that there are to take. -/
theorem Run.isPrefix_of_finished (h : Run s m table w actions w') (all : Run s m table w more w'')
    (finished : w''.Finished) : ∃ rest, more = actions ++ rest ∧ Run s m table w' rest w'' := by
  induction h generalizing more with
  | done => exact ⟨more, rfl, all⟩
  | step first _ ih =>
      cases all with
      | done => exact absurd first finished.not_step
      | step first' others =>
          obtain ⟨rfl, rfl⟩ := first.unique first'
          obtain ⟨rest, rfl, run⟩ := ih others
          exact ⟨rest, rfl, run⟩

variable (s m table) in
/-- Visiting the pending offsets is a run that empties them. -/
theorem run_visit (g : TypeGraph) (pending : List UInt64) (i : UInt64) (n : Nat) :
    ∃ actions, Run s m table ⟨g, pending, i, n⟩ actions ⟨(s.visit g pending).value, [], i, n⟩ ∧
      (s.visit g pending).events = actions.flatMap (Action.events s) := by
  fun_induction TypeSection.visit s g pending with
  | case1 g => exact ⟨[], .done, rfl⟩
  | case2 g offset rest here ih =>
      obtain ⟨actions, run, events⟩ := ih
      exact ⟨_, .step (.known here) run, events⟩
  | case3 g offset rest new e rejected after ih =>
      obtain ⟨actions, run, events⟩ := ih
      exact ⟨_, .step (.rejected (by simpa using new) rejected) run,
        congrArg (e.events ++ ·) events⟩
  | case4 g offset rest new d decoded after ih =>
      obtain ⟨actions, run, events⟩ := ih
      exact ⟨_, .step (.registered (by simpa using new) decoded) run,
        congrArg (s.escapes d ++ ·) events⟩

variable (s m table) in
/-- Following the type links is a run that leaves none. -/
theorem run_followLinks (g : TypeGraph) (i : UInt64) (n : Nat) :
    ∃ actions j,
      Run s m table ⟨g, [], i, n⟩ actions ⟨(followLinks s m table n i g).value, [], j, 0⟩ ∧
      (followLinks s m table n i g).events = actions.flatMap (Action.events s) := by
  induction n generalizing g i with
  | zero => exact ⟨[], i, .done, rfl⟩
  | succ n ih =>
      rw [followLinks]
      cases read : m.readUnsigned (table + 4 * i) 4 with
      | error e =>
          obtain ⟨actions, j, run, events⟩ := ih g (i + 1)
          exact ⟨_, j, .step (.unreadable read) run, congrArg (_ :: ·) events⟩
      | ok offset =>
          obtain ⟨visited, visit, logged⟩ := run_visit s m table g [offset] (i + 1) n
          obtain ⟨actions, j, run, events⟩ := ih (s.visit g [offset]).value (i + 1)
          refine ⟨_, j, .step (.link read) (visit.append run), ?_⟩
          rw [List.flatMap_cons, List.flatMap_append, ← logged, ← events]
          rfl

end Runs

section Record

/-- What the steps up to now have done to a graph that was empty before the first of some type
links. -/
structure Recorded (s : TypeSection) (links : Nat) (actions : List Action) (w : Growth) : Prop where
  nodes : ∀ address t, w.graph.find? address = some t ↔
    ∃ r ∈ registrations actions, s.low + r.1 = address ∧ t = r.2.type s.version
  once : ((registrations actions).map fun r => s.low + r.1).Nodup
  inside : ∀ r ∈ registrations actions, r.1.toNat ≤ s.data.size
  size : w.graph.size = (registrations actions).length
  effort : actions.length + w.pending.length + w.links =
    links + (actions.map (Action.pushes s)).sum

variable {links : Nat}

theorem registrations_append (actions more : List Action) :
    registrations (actions ++ more) = registrations actions ++ registrations more :=
  List.filterMap_append ..

theorem recorded_start (s : TypeSection) (links : Nat) : Recorded s links [] (start links) where
  nodes address t := by simp [start, registrations]
  once := List.nodup_nil
  inside _ mem := nomatch mem
  size := rfl
  effort := by simp [start]

/-- An address that is registered is that of a node. -/
theorem Recorded.contains (h : Recorded s links actions w) {r : UInt64 × Descriptor}
    (mem : r ∈ registrations actions) : w.graph.contains (s.low + r.1) = true :=
  contains_iff_exists.mpr ⟨_, (h.nodes _ _).mpr ⟨r, mem, rfl, rfl⟩⟩

/-- Steps that register nothing leave the record as it is. -/
theorem Recorded.pass (h : Recorded s links actions w) (none : a.registration? = none)
    (same : w'.graph = w.graph)
    (effort : 1 + w'.pending.length + w'.links =
      w.pending.length + w.links + a.pushes s) :
    Recorded s links (actions ++ [a]) w' := by
  have still : registrations (actions ++ [a]) = registrations actions := by
    rw [registrations_append, registrations, registrations, List.filterMap_cons_none none]
    exact List.append_nil _
  refine ⟨?_, ?_, ?_, ?_, ?_⟩
  · rw [same, still]
    exact h.nodes
  · rw [still]
    exact h.once
  · rw [still]
    exact h.inside
  · rw [same, still]
    exact h.size
  · have before := h.effort
    rw [List.length_append, List.map_append, List.sum_append, List.length_singleton,
      List.map_singleton, List.sum_singleton]
    omega

/-- A registration takes an address that no other one took. -/
theorem Recorded.register {g : TypeGraph} {offset : UInt64} {rest : List UInt64} {i : UInt64}
    {n : Nat} {d : Descriptor} (h : Recorded s links actions ⟨g, offset :: rest, i, n⟩)
    (new : g.contains (s.low + offset) = false) (decoded : s.decode offset = .ok d) :
    Recorded s links (actions ++ [.registered offset d])
      ⟨s.register g offset d, s.successors d ++ rest, i, n⟩ := by
  have grown : registrations (actions ++ [.registered offset d]) =
      registrations actions ++ [(offset, d)] := registrations_append ..
  refine ⟨?_, ?_, ?_, ?_, ?_⟩
  · intro address t
    rw [grown]
    simp only [TypeSection.register, find?_insert, List.mem_append, List.mem_singleton]
    split
    · next same =>
      constructor
      · rintro ⟨⟩
        exact ⟨(offset, d), .inr rfl, same, rfl⟩
      · rintro ⟨r, mem | rfl, place, rfl⟩
        · have there := h.contains mem
          rw [place, ← same] at there
          exact absurd (there.symm.trans new) (by decide)
        · rfl
    · next other =>
      rw [h.nodes address t]
      constructor
      · rintro ⟨r, mem, place, type⟩
        exact ⟨r, .inl mem, place, type⟩
      · rintro ⟨r, mem | rfl, place, type⟩
        · exact ⟨r, mem, place, type⟩
        · exact absurd place other
  · rw [grown, List.map_append, List.map_singleton, List.nodup_append]
    refine ⟨h.once, List.nodup_singleton _, ?_⟩
    intro address earlier other last same
    obtain ⟨r, mem, place⟩ := List.mem_map.mp earlier
    have there := h.contains mem
    rw [place, same, List.mem_singleton.mp last] at there
    exact absurd (there.symm.trans new) (by decide)
  · rw [grown]
    intro r mem
    obtain mem | mem := List.mem_append.mp mem
    · exact h.inside r mem
    · rw [List.mem_singleton.mp mem]
      exact s.decode_inside decoded
  · have before := h.size
    rw [grown, List.length_append, List.length_singleton, ← before]
    exact size_insert new
  · have before := h.effort
    simp only [List.length_append, List.map_append, List.sum_append, List.map_cons, List.map_nil,
      List.sum_cons, List.sum_nil, List.length_cons, List.length_nil, Action.pushes] at before ⊢
    omega

/-- Each step keeps the record. -/
theorem Recorded.step (h : Recorded s links actions w) (step : Step s m table w a w') :
    Recorded s links (actions ++ [a]) w' := by
  cases step with
  | known _ | rejected _ _ | unreadable _ =>
      exact h.pass rfl rfl (by simp only [List.length_cons, Action.pushes]; omega)
  | link _ =>
      exact h.pass rfl rfl (by simp only [List.length_nil, List.length_cons, Action.pushes]; omega)
  | registered new decoded => exact h.register new decoded

/-- So does a whole run. -/
theorem Recorded.run (h : Recorded s links actions w) (run : Run s m table w more w') :
    Recorded s links (actions ++ more) w' := by
  induction run generalizing actions with
  | done => rwa [List.append_nil]
  | step first _ ih =>
      have next := ih (h.step first)
      rwa [List.append_assoc, List.singleton_append] at next

/-- A section has no room for more registrations than it has bytes, but for one at its end. -/
theorem Recorded.length_registrations_le (h : Recorded s links actions w) :
    (registrations actions).length ≤ s.data.size + 1 := by
  have places : ((registrations actions).map fun r => r.1.toNat).Nodup := by
    have once := h.once
    rw [List.Nodup, List.pairwise_map] at once ⊢
    exact once.imp fun other same => other (by rw [UInt64.toNat_inj.mp same])
  have inside : ((registrations actions).map fun r => r.1.toNat) ⊆
      List.range (s.data.size + 1) := by
    intro place taken
    obtain ⟨r, mem, rfl⟩ := List.mem_map.mp taken
    exact List.mem_range.mpr (Nat.lt_succ_of_le (h.inside r mem))
  have fits := (List.subperm_of_subset places inside).length_le
  rwa [List.length_map, List.length_range] at fits

end Record

end Growth

open Growth in
/-- The graph of a section grows in finitely many steps. From no state do the steps go on for ever,
and they only stop once no offset is pending and no type link is left. One run from the first link
on comes so far; every other run is the beginning of it, and its graph and its log are those of
following the links. At each point of a run no address has been registered twice, and the nodes are
what was registered, as many and with nothing lost. A step that registers a type finds no node at
its address and keeps all others. No more is registered than the section has offsets, and as many
steps were taken as links were met and offsets made pending, less those that still are. -/
theorem followLinks_growth (s : TypeSection) (m : Memory) (table : UInt64) (links : Nat) :
    (WellFounded fun w' w => ∃ a, Step s m table w a w') ∧
    (∀ w, (∀ a w', ¬ Step s m table w a w') ↔ w.Finished) ∧
    (∃ actions w, Run s m table (start links) actions w ∧ w.Finished ∧
      (followLinks s m table links 0 .empty).value = w.graph ∧
      (followLinks s m table links 0 .empty).events = actions.flatMap (Action.events s) ∧
      ∀ part w', Run s m table (start links) part w' →
        ∃ rest, actions = part ++ rest ∧ Run s m table w' rest w) ∧
    ∀ actions w, Run s m table (start links) actions w →
      Recorded s links actions w ∧ (registrations actions).length ≤ s.data.size + 1 ∧
      ∀ o d w', Step s m table w (.registered o d) w' →
        w.graph.find? (s.low + o) = none ∧ w'.graph.find? (s.low + o) = some (d.type s.version) ∧
        ∀ address, address ≠ s.low + o → w'.graph.find? address = w.graph.find? address := by
  refine ⟨wellFounded_step, fun w => ⟨?_, ?_⟩, ?_, ?_⟩
  · intro stuck
    by_contra unfinished
    obtain ⟨a, w', step⟩ := exists_step_of_not_finished unfinished
    exact stuck a w' step
  · intro finished a w'
    exact finished.not_step
  · obtain ⟨actions, j, run, events⟩ := run_followLinks s m table .empty 0 links
    exact ⟨actions, _, run, ⟨rfl, rfl⟩, rfl, events, fun part w' first =>
      first.isPrefix_of_finished run ⟨rfl, rfl⟩⟩
  · intro actions w run
    have recorded := (recorded_start s links).run run
    rw [List.nil_append] at recorded
    exact ⟨recorded, recorded.length_registrations_le, fun o d w' step => step.registered_inserts⟩

end TypeGraph

end GoInspect
