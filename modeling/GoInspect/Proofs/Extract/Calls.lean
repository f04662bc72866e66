import GoInspect.Extract
import GoInspect.Proofs.Extract.Reading
import Mathlib.Data.Set.Insert
import Mathlib.Logic.Relation

/-!
# What readings ask for

Reading an object asks for the objects inside, one after another. `Asks` follows this order, so that
a later object is asked for only once the earlier ones came to something. The steps are the same for
all readings: `Sequential` collects how readings are put together, and what holds of such readings
is proved once, by induction on it.
-/

namespace GoInspect

namespace Extract

/-- The addresses that were visited. -/
def Trace.seen (trace : Trace) : Set UInt64 := {a | trace.visited.contains a = true}

/-- An object that is to be read, and what was visited before. -/
structure Call where
  type : GoType
  address : UInt64
  depth : UInt32
  trace : Trace

namespace Call

/-- What the call comes to when objects are read in a way. -/
def run (c : Call) (read : Reader) : Option (Value × Trace) :=
  read c.type c.address c.depth c.trace

/-- The same object is to be read to the same depth, and the same addresses were visited before. -/
structure Again (c c' : Call) : Prop where
  type : c.type = c'.type
  address : c.address = c'.address
  depth : c.depth = c'.depth
  seen : c.trace.seen = c'.trace.seen

end Call

variable {s : Source} {α β : Type}

/-- A reading comes to an outcome when steps may be nested deep enough, and to no other one however
deep they are nested. -/
def ComesTo (s : Source) (p : Reader → Reading α) (trace : Trace) (outcome : α × Trace) : Prop :=
  (∃ n, p (within s n) trace = some outcome) ∧
    ∀ n other, p (within s n) trace = some other → other = outcome

/-- A reading asks for an object. It may be a single call or a sequence, and the second part of a
sequence asks for something only after the first part came to an outcome. -/
inductive Asks (s : Source) : {α : Type} → (Reader → Reading α) → Trace → Call → Prop where
  | call {type : GoType} {address : UInt64} {depth : UInt32} {trace : Trace} :
      Asks s (fun read => read type address depth) trace ⟨type, address, depth, trace⟩
  | first {α β : Type} {p : Reader → Reading α} {k : α → Reader → Reading β} {trace : Trace}
      {c : Call} : Asks s p trace c → Asks s (fun read => p read >>= fun v => k v read) trace c
  | later {α β : Type} {p : Reader → Reading α} {k : α → Reader → Reading β}
      {trace between : Trace} {v : α} {c : Call} : ComesTo s p trace (v, between) →
      Asks s (k v) between c → Asks s (fun read => p read >>= fun v => k v read) trace c

/-- Reading the object of one call asks for that of another. -/
def Calls (s : Source) (c c' : Call) : Prop :=
  Asks s (fun read => step s read c.type c.address c.depth) c.trace c'

/-- A reading that comes to something had an answer to all that it asked for. -/
theorem Asks.answered {p : Reader → Reading α} {trace : Trace} {c : Call} (h : Asks s p trace c)
    {n : Nat} {outcome : α × Trace} (come : p (within s n) trace = some outcome) :
    ∃ answer, c.run (within s n) = some answer := by
  induction h with
  | call => exact ⟨outcome, come⟩
  | first _ ih =>
      obtain ⟨v, between, first, _⟩ := bind_eq_some_iff.mp come
      exact ih first
  | later comes _ ih =>
      obtain ⟨v, between, first, rest⟩ := bind_eq_some_iff.mp come
      cases comes.2 n _ first
      exact ih rest

section Sequential

/-- How readings are put together: from values, from steps that ask for nothing, and from calls. The
calls are allowed to ask for some types, at some depths, given what was visited before. -/
inductive Sequential (allowed : GoType → UInt32 → Set UInt64 → Prop) :
    {α : Type} → Set UInt64 → (Reader → Reading α) → Prop where
  | pure {α : Type} {seen : Set UInt64} (v : α) : Sequential allowed seen fun _ => pure v
  | known {α β : Type} {seen between : Set UInt64} {p : Reading α} {v : α}
      {k : α → Reader → Reading β} :
      (∀ trace : Trace, trace.seen = seen →
        ∃ trace', p trace = some (v, trace') ∧ trace'.seen = between) →
      seen ⊆ between → Sequential allowed between (k v) →
      Sequential allowed seen fun read => p >>= fun v => k v read
  | call {seen : Set UInt64} {type : GoType} {address : UInt64} {depth : UInt32} :
      allowed type depth seen → Sequential allowed seen fun read => read type address depth
  | bind {α β : Type} {seen : Set UInt64} {p : Reader → Reading α}
      {k : α → Reader → Reading β} : Sequential allowed seen p →
      (∀ v between, seen ⊆ between → Sequential allowed between (k v)) →
      Sequential allowed seen fun read => p read >>= fun v => k v read

/-- The value of an outcome and what was visited by then, without the events. -/
def view (outcome : Option (α × Trace)) : Option (α × Set UInt64) :=
  outcome.map fun found => (found.1, found.2.seen)

/-- A way to read objects that only ever visits more, and to which events do not matter. -/
structure Regular (read : Reader) : Prop where
  grows : ∀ {t address depth trace v trace'}, read t address depth trace = some (v, trace') →
    trace.seen ⊆ trace'.seen
  congr : ∀ {t address depth trace trace'}, trace.seen = trace'.seen →
    view (read t address depth trace) = view (read t address depth trace')

/-- One way to read objects answers all that the other one does. -/
def Extends (read read' : Reader) : Prop :=
  ∀ t address depth trace outcome, read t address depth trace = some outcome →
    read' t address depth trace = some outcome

variable {allowed : GoType → UInt32 → Set UInt64 → Prop} {seen : Set UInt64}
  {p : Reader → Reading α} {read read' : Reader}

theorem Sequential.grows (h : Sequential allowed seen p) (regular : Regular read)
    {trace trace' : Trace} (start : trace.seen = seen) {v : α}
    (come : p read trace = some (v, trace')) : seen ⊆ trace'.seen := by
  induction h generalizing trace trace' with
  | pure v =>
      cases come
      exact start.ge
  | known step le _ ih =>
      obtain ⟨between, first, there⟩ := step trace start
      dsimp only at come
      rw [bind_of_some first] at come
      exact le.trans (ih there come)
  | call _ => exact start ▸ regular.grows come
  | bind _ _ ih ih' =>
      obtain ⟨u, between, first, rest⟩ := bind_eq_some_iff.mp come
      have le := ih start first
      exact le.trans (ih' u _ le rfl rest)

/-- Two outcomes that look the same are both none, or they differ in nothing but events. -/
theorem cases_of_view_eq {outcome outcome' : Option (α × Trace)}
    (h : view outcome = view outcome') :
    (outcome = none ∧ outcome' = none) ∨ ∃ v trace trace', outcome = some (v, trace) ∧
      outcome' = some (v, trace') ∧ trace.seen = trace'.seen := by
  cases outcome with
  | none =>
      cases outcome' with
      | none => exact .inl ⟨rfl, rfl⟩
      | some found => cases h
  | some found =>
      cases outcome' with
      | none => cases h
      | some found' =>
          obtain ⟨value, seen⟩ := Prod.mk.inj (Option.some.inj h)
          refine .inr ⟨found.1, found.2, found'.2, rfl, ?_, seen⟩
          rw [value]

theorem Sequential.congr (h : Sequential allowed seen p) (regular : Regular read)
    {trace trace' : Trace} (start : trace.seen = seen) (start' : trace'.seen = seen) :
    view (p read trace) = view (p read trace') := by
  induction h generalizing trace trace' with
  | pure v =>
      show some (v, trace.seen) = some (v, trace'.seen)
      rw [start, start']
  | known step _ _ ih =>
      obtain ⟨between, first, there⟩ := step trace start
      obtain ⟨between', first', there'⟩ := step trace' start'
      dsimp only
      rw [bind_of_some first, bind_of_some first']
      exact ih there there'
  | call _ => exact regular.congr (start.trans start'.symm)
  | bind sequential _ ih ih' =>
      dsimp only
      obtain ⟨none, none'⟩ | ⟨v, _, _, first, first', same⟩ := cases_of_view_eq (ih start start')
      · rw [bind_of_none none, bind_of_none none']
      · rw [bind_of_some first, bind_of_some first']
        exact ih' v _ (sequential.grows regular start first) rfl same.symm

/-- More answers do not change an outcome. -/
theorem Sequential.mono (h : Sequential allowed seen p) (regular : Regular read)
    (extends' : Extends read read') {trace : Trace} (start : trace.seen = seen)
    {outcome : α × Trace} (come : p read trace = some outcome) :
    p read' trace = some outcome := by
  induction h generalizing trace with
  | pure v => exact come
  | known step _ _ ih =>
      obtain ⟨between, first, there⟩ := step trace start
      dsimp only at come ⊢
      rw [bind_of_some first] at come ⊢
      exact ih there come
  | call _ => exact extends' _ _ _ _ _ come
  | bind sequential _ ih ih' =>
      obtain ⟨v, between, first, rest⟩ := bind_eq_some_iff.mp come
      have le := sequential.grows regular start first
      exact bind_eq_some_iff.mpr ⟨v, between, ih start first, ih' v _ le rfl rest⟩

/-- A sequential reading comes to something if all that it may ask for does. -/
theorem Sequential.answers (h : Sequential allowed seen p) (regular : Regular read)
    (calls : ∀ {type address depth} {trace : Trace}, allowed type depth trace.seen →
      ∃ outcome, read type address depth trace = some outcome)
    {trace : Trace} (start : trace.seen = seen) : ∃ outcome, p read trace = some outcome := by
  induction h generalizing trace with
  | pure v => exact ⟨_, rfl⟩
  | known step _ _ ih =>
      obtain ⟨between, first, there⟩ := step trace start
      dsimp only
      rw [bind_of_some first]
      exact ih there
  | call fits => exact calls (start ▸ fits)
  | bind sequential _ ih ih' =>
      obtain ⟨⟨v, between⟩, first⟩ := ih start
      have le := sequential.grows regular start first
      obtain ⟨outcome, rest⟩ := ih' v _ le rfl
      exact ⟨outcome, (bind_of_some first).trans rest⟩

/-- What a sequential reading comes to at one depth of nesting is what it comes to. -/
theorem Sequential.comesTo (h : Sequential allowed seen p)
    (regular : ∀ n, Regular (within s n))
    (levels : ∀ {n m}, n ≤ m → Extends (within s n) (within s m)) {trace : Trace}
    (start : trace.seen = seen) {n : Nat} {outcome : α × Trace}
    (come : p (within s n) trace = some outcome) : ComesTo s p trace outcome := by
  refine ⟨⟨n, come⟩, fun m other come' => ?_⟩
  have here := h.mono (regular n) (levels (Nat.le_max_left n m)) start come
  have there := h.mono (regular m) (levels (Nat.le_max_right n m)) start come'
  exact Option.some.inj (there.symm.trans here)

/-- A sequential reading that never comes to anything asks for an object that never does. -/
theorem Sequential.stuck (h : Sequential allowed seen p)
    (regular : ∀ n, Regular (within s n))
    (levels : ∀ {n m}, n ≤ m → Extends (within s n) (within s m)) {trace : Trace}
    (start : trace.seen = seen) (never : ∀ n, p (within s n) trace = none) :
    ∃ c, Asks s p trace c ∧ allowed c.type c.depth c.trace.seen ∧
      ∀ n, c.run (within s n) = none := by
  induction h generalizing trace with
  | pure v => cases never 0
  | @known _ _ _ _ p v k step _ _ ih =>
      obtain ⟨between, first, there⟩ := step trace start
      have rest : ∀ n, k v (within s n) between = none := by
        intro n
        have whole := never n
        dsimp only at whole
        rwa [bind_of_some first] at whole
      obtain ⟨c, asks, fits, none⟩ := ih there rest
      have comes : ComesTo s (fun _ => p) trace (v, between) := by
        refine ⟨⟨0, first⟩, ?_⟩
        intro _ _ other
        exact Option.some.inj (other.symm.trans first)
      exact ⟨c, .later comes asks, fits, none⟩
  | call fits => exact ⟨_, .call, start ▸ fits, never⟩
  | @bind _ _ _ p k sequential next ih ih' =>
      by_cases ends : ∃ n v between, p (within s n) trace = some (v, between)
      · obtain ⟨n, v, between, first⟩ := ends
        have le := sequential.grows (regular n) start first
        have rest : ∀ m, k v (within s m) between = none := by
          intro m
          by_contra some
          obtain ⟨outcome, come⟩ := Option.ne_none_iff_exists'.mp some
          have first := sequential.mono (regular n) (levels (Nat.le_max_left n m)) start first
          have come := (next v _ le).mono (regular m) (levels (Nat.le_max_right n m)) rfl come
          have whole := never (max n m)
          dsimp only at whole
          rw [bind_of_some first, come] at whole
          cases whole
        obtain ⟨c, asks, fits, none⟩ := ih' v _ le rfl rest
        exact ⟨c, .later (sequential.comesTo regular levels start first) asks, fits, none⟩
      · have none : ∀ n, p (within s n) trace = none := by
          intro n
          cases first : p (within s n) trace with
          | none => rfl
          | some outcome => exact absurd ⟨n, outcome.1, outcome.2, first⟩ ends
        obtain ⟨c, asks, fits, none⟩ := ih start none
        exact ⟨c, .first asks, fits, none⟩

end Sequential

end Extract

end GoInspect
