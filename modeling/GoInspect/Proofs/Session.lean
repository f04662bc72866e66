import GoInspect.Proofs.Analysis
import GoInspect.Proofs.Remark.Direct
import GoInspect.Session
import Mathlib.Data.List.Induction

/-!
# Guesses and the analysis they came from

A session may be asked anything in any order, while its surroundings change as they like. What it
keeps of guesses always fits its present analysis: it is what the questions since that analysis
would have left behind in a session without any guesses.
-/

namespace GoInspect

open Relation

namespace Guesses

structure IsEmpty (g : Guesses) : Prop where
  types : g.types.entries = []
  strings : g.strings.entries = []
  previous : g.previous = none

theorem isEmpty_empty : empty.IsEmpty :=
  ⟨GuessCache.entries_empty _, GuessCache.entries_empty _, rfl⟩

theorem isEmpty_clear (g : Guesses) : g.clear.IsEmpty :=
  ⟨GuessCache.entries_clear _, GuessCache.entries_clear _, rfl⟩

/-- Everything guessed is about addresses that may be pointers, and comes from the analysis. Without
an analysis there are no guesses, and without types none about types. -/
structure BackedBy (a : Option Analysis) (g : Guesses) : Prop where
  types : ∀ e ∈ g.types.entries, minPointer ≤ e.1 ∧
    ∃ b ∈ a, ∃ graph ∈ b.types, ∃ t, graph.find? e.2 = some t
  strings : ∀ e ∈ g.strings.entries, minPointer ≤ e.1 ∧ e.2 < minPointer ∧ a.isSome
  previous : ∀ entry ∈ g.previous, ∃ b ∈ a, ∃ f ∈ b.functions.functions, f.entry = entry
  typeRoom : g.types.capacity = 64
  stringRoom : g.strings.capacity = 128

variable {g g' : Guesses}

theorem IsEmpty.backedBy (h : g.IsEmpty) (typeRoom : g.types.capacity = 64)
    (stringRoom : g.strings.capacity = 128) (a : Option Analysis) : g.BackedBy a := by
  refine ⟨?_, ?_, ?_, typeRoom, stringRoom⟩
  · rw [h.types]
    exact List.forall_mem_nil _
  · rw [h.strings]
    exact List.forall_mem_nil _
  · rw [h.previous]
    exact fun _ mem => nomatch mem

theorem BackedBy.types_eq_nil {a : Option Analysis} (h : g.BackedBy a)
    (none : a.bind Analysis.types = none) : g.types.entries = [] := by
  apply List.eq_nil_iff_forall_not_mem.mpr
  intro e mem
  obtain ⟨_, b, present, graph, types, _⟩ := h.types e mem
  have some : a.bind Analysis.types = some graph := Option.bind_eq_some_iff.mpr ⟨b, present, types⟩
  rw [none] at some
  cases some

theorem BackedBy.isEmpty (h : g.BackedBy none) : g.IsEmpty := by
  refine ⟨h.types_eq_nil rfl, ?_, ?_⟩
  · apply List.eq_nil_iff_forall_not_mem.mpr
    intro e mem
    cases (h.strings e mem).2.2
  · apply Option.eq_none_iff_forall_not_mem.mpr
    intro entry mem
    obtain ⟨b, none, _⟩ := h.previous entry mem
    cases none

/-- Guesses that need no analysis are fit for any. -/
theorem BackedBy.of_none (h : g.BackedBy none) (a : Option Analysis) : g.BackedBy a :=
  h.isEmpty.backedBy h.typeRoom h.stringRoom a

theorem BackedBy.clear {a : Option Analysis} (h : g.BackedBy a) (b : Option Analysis) :
    g.clear.BackedBy b := by
  refine g.isEmpty_clear.backedBy ?_ ?_ b
  · exact (GuessCache.capacity_clear _).trans h.typeRoom
  · exact (GuessCache.capacity_clear _).trans h.stringRoom

theorem BackedBy.change {a : Analysis} (h : g.BackedBy (some a))
    (change : Change a.functions a.types g g') : g'.BackedBy (some a) := by
  cases change with
  | @addType graph t object address _ types node pointer =>
      refine { h with
        types := fun e mem => ?_
        typeRoom := (GuessCache.capacity_add _ _ _).trans h.typeRoom }
      obtain rfl | old := GuessCache.mem_entries_add _ _ _ mem
      · exact ⟨pointer, a, rfl, graph, types, t, node⟩
      · exact h.types e old
  | addString _ pointer short =>
      refine { h with
        strings := fun e mem => ?_
        stringRoom := (GuessCache.capacity_add _ _ _).trans h.stringRoom }
      obtain rfl | old := GuessCache.mem_entries_add _ _ _ mem
      · exact ⟨pointer, short, rfl⟩
      · exact h.strings e old
  | removeType object =>
      refine { h with
        types := fun e mem => ?_
        typeRoom := (GuessCache.capacity_remove _ _).trans h.typeRoom }
      exact h.types e (GuessCache.mem_entries_remove _ _ mem)
  | removeString address =>
      refine { h with
        strings := fun e mem => ?_
        stringRoom := (GuessCache.capacity_remove _ _).trans h.stringRoom }
      exact h.strings e (GuessCache.mem_entries_remove _ _ mem)
  | @enter f _ member =>
      refine { h with previous := fun entry mem => ?_ }
      cases mem
      exact ⟨a, rfl, f, member, rfl⟩

theorem BackedBy.changes {a : Analysis} (h : g.BackedBy (some a))
    (changes : Changes a.functions a.types g g') : g'.BackedBy (some a) := by
  induction changes with
  | refl => exact h
  | tail _ change ih => exact ih.change change

end Guesses

namespace Session

inductive Operation where
  | findFunction (address : UInt64)
  | findFunctionsNamed (name : Text)
  | listFunctions
  | getTypeAt (address : UInt64) (depth : UInt32)
  | getTypeNamed (text : Text) (depth : UInt32)
  | listTypes (depth : UInt32)
  | unpackAt (object type : UInt64) (depth : UInt32)
  | unpackNamed (object : UInt64) (type : Text) (depth : UInt32)
  | backtrace (p : Stop) (limit : UInt32)
  | annotate (value : UInt64) (containing : Option UInt64)
  | onStop (p : Stop)
  | reanalyse

variable (w : Surroundings)

def after (s : Session) : Operation → Session
  | .findFunction address => (findFunction w address s).value.2
  | .findFunctionsNamed name => (findFunctionsNamed w name s).value.2
  | .listFunctions => (listFunctions w s).value.2
  | .getTypeAt address depth => (getTypeAt w address depth s).value.2
  | .getTypeNamed text depth => (getTypeNamed w text depth s).value.2
  | .listTypes depth => (listTypes w depth s).value.2
  | .unpackAt object type depth => (unpackAt w object type depth s).value.2
  | .unpackNamed object type depth => (unpackNamed w object type depth s).value.2
  | .backtrace p limit => (backtrace w p limit s).value.2
  | .annotate value containing => (annotate w value containing s).value.2
  | .onStop p => (onStop w p s).value.2
  | .reanalyse => (reanalyse w s).value.2

/-- The session after operations, each in its own surroundings. -/
def run (s : Session) (steps : List (Surroundings × Operation)) : Session :=
  steps.foldl (fun s step => s.after step.1 step.2) s

theorem run_append (s : Session) (steps : List (Surroundings × Operation))
    (step : Surroundings × Operation) :
    s.run (steps ++ [step]) = (s.run steps).after step.1 step.2 :=
  List.foldl_append ..

section Asking

variable {α β : Type} (s : Session)

/-- The session once a question was let in: analysed if it was not before. -/
def opened : Session :=
  if s.settings.support = .disable ∨ s.outcome.isSome then s else (analyse w s).value.2

/-- The analysis that a question is answered by. -/
def admitted? : Option Analysis :=
  if s.settings.support = .disable then none else (s.opened w).analysis?

/-- Why a question is not let in. -/
def refusal : QueryError := if s.settings.support = .disable then .disabled else .notGo

theorem value_get : ((get : Asking Session) s).value = (s, s) := rfl

theorem value_bind (ask : Asking α) (next : α → Asking β) :
    ((ask >>= next) s).value = (next (ask s).value.1 (ask s).value.2).value := rfl

/-- A question is refused, or answered by the analysis of the session as it is from then on. -/
theorem acquire_value : (acquire w s).value =
    (match s.admitted? w with
      | none => .error s.refusal
      | some a => .ok a, s.opened w) := by
  rw [admitted?, opened, refusal, acquire, value_bind, value_get]
  by_cases disabled : s.settings.support = .disable
  · rw [if_pos disabled, if_pos disabled, if_pos disabled, if_pos (.inl disabled)]
    rfl
  · rw [if_neg disabled, if_neg disabled, if_neg disabled, value_bind, value_get]
    cases outcome : s.outcome with
    | none =>
        simp only [disabled, Option.isNone_none, Option.isSome_none, if_true, if_false, or_self,
          Bool.false_eq_true, value_bind, value_get]
        cases (analyse w s).value.2.analysis? <;> rfl
    | some found =>
        simp only [Option.isNone_some, Option.isSome_some, or_true, if_true, if_false,
          Bool.false_eq_true, value_bind, value_get]
        cases s.analysis? <;> rfl

/-- A step leaves the session alone. -/
def Reads (step : Asking α) : Prop := ∀ s, (step s).value.2 = s

namespace Reads

theorem pure (x : α) : Reads (pure x) := fun _ => rfl

theorem get : Reads get := fun _ => rfl

theorem lift (x : Logged α) : Reads (x : Asking α) := fun _ => rfl

theorem bind {step : Asking α} {next : α → Asking β} (first : Reads step)
    (rest : ∀ x, Reads (next x)) : Reads (step >>= next) :=
  fun s => (rest _ _).trans (first s)

theorem ite {p : Prop} [Decidable p] {step step' : Asking α} (first : Reads step)
    (second : Reads step') : Reads (if p then step else step') := by
  split
  · exact first
  · exact second

end Reads

/-- A step changes the session only by an analysis, and only where there was none. -/
def Opens (step : Asking α) : Prop := ∀ s, (step s).value.2 = s.opened w

variable {w}

theorem Opens.bind {step : Asking α} {next : α → Asking β} (first : Opens w step)
    (rest : ∀ x, Reads (next x)) : Opens w (step >>= next) :=
  fun s => (rest _ _).trans (first s)

variable (w)

theorem acquire_opens : Opens w (acquire w) := by
  intro s
  rw [acquire_value]

theorem ask_opens (answer : Analysis → Except QueryError α) : Opens w (ask w answer) := by
  refine (acquire_opens w).bind fun admitted => ?_
  cases admitted <;> exact .pure _

theorem unpackAs_reads (a : Analysis) (g : TypeGraph) (t : GoType) (object : UInt64)
    (depth : UInt32) : Reads (unpackAs w a g t object depth) := by
  rw [unpackAs]
  split
  · exact .pure _
  · refine .ite (.pure _) (.bind .get fun s => .bind (.lift _) fun value => ?_)
    exact .ite (.pure _) (.pure _)

theorem unpackBy_opens (type : Analysis → TypeGraph → Except QueryError GoType)
    (object : UInt64) (depth : UInt32) : Opens w (unpackBy w type object depth) := by
  refine (ask_opens w _).bind fun found => ?_
  split
  · exact .pure _
  · exact unpackAs_reads w _ _ _ object depth

theorem backtrace_opens (p : Stop) (limit : UInt32) : Opens w (backtrace w p limit) := by
  refine (acquire_opens w).bind fun admitted => ?_
  split
  · exact .pure _
  · split
    · refine .bind (.lift _) fun frames => ?_
      split <;> exact .pure _
    · exact .pure _

/-- The guesses after an operation that is answered by an analysis. -/
def guessesAfter (a : Analysis) : Operation → Guesses
  | .annotate value containing =>
    (Remark.annotate ⟨a, w.memory, s.settings⟩ value containing s.guesses).value.2
  | .onStop p => (Inference.onStop ⟨a.functions, a.types, w.architecture⟩ p s.guesses).value
  | _ => s.guesses

/-- What an operation does to a session, reanalysis apart. -/
theorem after_eq {o : Operation} (asks : o ≠ .reanalyse) :
    s.after w o = match s.admitted? w with
      | none => s.opened w
      | some a => { s.opened w with guesses := (s.opened w).guessesAfter w a o } := by
  have opens {α : Type} {step : Asking α} (h : Opens w step) : (step s).value.2 =
      match s.admitted? w with
      | none => s.opened w
      | some _ => { s.opened w with guesses := (s.opened w).guesses } := by
    rw [h s]
    cases s.admitted? w <;> rfl
  cases o with
  | findFunction address => exact opens (ask_opens w _)
  | findFunctionsNamed name => exact opens (ask_opens w _)
  | listFunctions => exact opens (ask_opens w _)
  | getTypeAt address depth => exact opens (ask_opens w _)
  | getTypeNamed text depth => exact opens (ask_opens w _)
  | listTypes depth => exact opens (ask_opens w _)
  | unpackAt object type depth => exact opens (unpackBy_opens w _ object depth)
  | unpackNamed object type depth => exact opens (unpackBy_opens w _ object depth)
  | backtrace p limit => exact opens (backtrace_opens w p limit)
  | annotate value containing =>
      rw [after, annotate, value_bind, acquire_value]
      cases s.admitted? w <;> rfl
  | onStop p =>
      rw [after, onStop, value_bind, acquire_value]
      cases s.admitted? w <;> rfl
  | reanalyse => exact absurd rfl asks

theorem after_reanalyse : s.after w .reanalyse =
    if s.settings.support = .disable then s
    else (analyse w { s with guesses := s.guesses.clear }).value.2 := by
  rw [after, reanalyse, value_bind, value_get]
  by_cases disabled : s.settings.support = .disable
  · rw [if_pos disabled, if_neg (not_not_intro disabled)]
    rfl
  · rw [if_neg disabled, if_pos disabled]
    rfl

end Asking

section Invariant

variable {s : Session}

/-- Support is given up only where nothing was found. -/
theorem analyse_enabled {a : Analysis} (enabled : s.settings.support ≠ .disable)
    (found : (analyse w s).value.2.analysis? = some a) :
    (analyse w s).value.2.settings.support ≠ .disable := by
  obtain kept | ⟨none, _⟩ := Analysis.run_level w.image w.memory w.architecture.pointerWidth
    s.settings.support
  · exact fun disabled => enabled (kept.symm.trans disabled)
  · cases found.symm.trans none

theorem guessesAfter_changes (a : Analysis) (o : Operation) :
    Guesses.Changes a.functions a.types s.guesses (s.guessesAfter w a o) := by
  cases o with
  | annotate value containing =>
      exact Remark.annotate_keeps ⟨a, w.memory, s.settings⟩ value containing s.guesses
  | onStop p =>
      exact Inference.onStop_changes ⟨a.functions, a.types, w.architecture⟩ p s.guesses
  | _ => exact .refl

theorem admitted?_eq_some {a : Analysis} (admitted : s.admitted? w = some a) :
    (s.opened w).analysis? = some a := by
  rw [admitted?] at admitted
  split at admitted
  · cases admitted
  · exact admitted

theorem opened_backedBy (h : s.guesses.BackedBy s.analysis?) :
    (s.opened w).guesses.BackedBy (s.opened w).analysis? := by
  rw [opened]
  split
  · exact h
  · rename_i unready
    have unanalysed : s.outcome = none := by
      cases outcome : s.outcome with
      | none => rfl
      | some found => exact absurd (.inr (by rw [outcome]; rfl)) unready
    rw [analysis?, unanalysed] at h
    exact h.of_none _

theorem after_backedBy (h : s.guesses.BackedBy s.analysis?) (o : Operation) :
    (s.after w o).guesses.BackedBy (s.after w o).analysis? := by
  by_cases again : o = .reanalyse
  · subst again
    rw [after_reanalyse]
    split
    · exact h
    · exact h.clear _
  · rw [after_eq w s again]
    have opened := opened_backedBy w h
    cases admitted : s.admitted? w with
    | none => exact opened
    | some a =>
        have present := admitted?_eq_some w admitted
        rw [present] at opened
        have backed := opened.changes ((s.opened w).guessesAfter_changes w a o)
        rw [← present] at backed
        exact backed

theorem run_backedBy (settings : Settings) (steps : List (Surroundings × Operation)) :
    ((start settings).run steps).guesses.BackedBy ((start settings).run steps).analysis? := by
  induction steps using List.reverseRecOn with
  | nil =>
      have room (slots : Nat) : (GuessCache.empty slots : GuessCache UInt64).capacity = slots :=
        GuessCache.capacity_empty slots
      exact Guesses.isEmpty_empty.backedBy (room 64) (room 128) _
  | append_singleton steps step ih =>
      rw [run_append]
      exact after_backedBy step.1 ih step.2

theorem opened_distinct (h : s.guesses.Distinct) : (s.opened w).guesses.Distinct := by
  rw [opened]
  split
  · exact h
  · exact h

theorem after_distinct (h : s.guesses.Distinct) (o : Operation) :
    (s.after w o).guesses.Distinct := by
  by_cases again : o = .reanalyse
  · subst again
    rw [after_reanalyse]
    split
    · exact h
    · exact Guesses.distinct_clear s.guesses
  · rw [after_eq w s again]
    have opened := opened_distinct w h
    cases s.admitted? w with
    | none => exact opened
    | some a => exact opened.changes ((s.opened w).guessesAfter_changes w a o)

/-- No session ever holds two guesses about one address. -/
theorem run_distinct (settings : Settings) (steps : List (Surroundings × Operation)) :
    ((start settings).run steps).guesses.Distinct := by
  induction steps using List.reverseRecOn with
  | nil => exact Guesses.distinct_empty
  | append_singleton steps step ih =>
      rw [run_append]
      exact after_distinct step.1 ih step.2

end Invariant

section Provenance

variable {s : Session}

/-- An operation replaces the analysis. -/
def Replaces (s : Session) (o : Operation) : Prop :=
  o = .reanalyse ∧ s.settings.support ≠ .disable

/-- The session is what the operations have made of its analysis and no guesses. -/
def MadeBy (s : Session) (steps : List (Surroundings × Operation)) : Prop :=
  ∃ guesses : Guesses, guesses.IsEmpty ∧ (∀ step ∈ steps, ¬ s.Replaces step.2) ∧
    { s with guesses }.run steps = s

theorem after_ready {o : Operation} (ready : s.settings.support = .disable ∨ s.outcome.isSome)
    (keeps : ¬ s.Replaces o) :
    (s.after w o).settings = s.settings ∧ (s.after w o).outcome = s.outcome := by
  by_cases again : o = .reanalyse
  · have disabled : s.settings.support = .disable :=
      not_not.mp fun enabled => keeps ⟨again, enabled⟩
    rw [again, after_reanalyse, if_pos disabled]
    exact ⟨rfl, rfl⟩
  · have opened : s.opened w = s := if_pos ready
    rw [after_eq w s again, opened]
    cases s.admitted? w <;> exact ⟨rfl, rfl⟩

theorem MadeBy.after {steps : List (Surroundings × Operation)} {o : Operation}
    (h : s.MadeBy steps) (ready : s.settings.support = .disable ∨ s.outcome.isSome)
    (keeps : ¬ s.Replaces o) : (s.after w o).MadeBy (steps ++ [(w, o)]) := by
  obtain ⟨guesses, empty, replaced, made⟩ := h
  obtain ⟨settings, outcome⟩ := after_ready w ready keeps
  refine ⟨guesses, empty, ?_, ?_⟩
  · rw [List.forall_mem_append, List.forall_mem_singleton]
    simp only [Replaces, settings]
    exact ⟨replaced, keeps⟩
  · rw [run_append, settings, outcome, made]

/-- The first question is answered as if the analysis had been there before. -/
theorem analyse_after {o : Operation} (enabled : s.settings.support ≠ .disable)
    (unanalysed : s.outcome = none) (asks : o ≠ .reanalyse) :
    (analyse w s).value.2.after w o = s.after w o := by
  have unready : ¬ (s.settings.support = .disable ∨ s.outcome.isSome) := by
    rw [unanalysed]
    rintro (disabled | some)
    · exact enabled disabled
    · cases some
  have opened : s.opened w = (analyse w s).value.2 := if_neg unready
  have opened' : (analyse w s).value.2.opened w = (analyse w s).value.2 := if_pos (.inr rfl)
  have admitted : (analyse w s).value.2.admitted? w = s.admitted? w := by
    rw [admitted?, admitted?, opened, opened', if_neg enabled]
    cases found : (analyse w s).value.2.analysis? with
    | none => exact ite_self none
    | some a => exact if_neg (analyse_enabled w enabled found)
  rw [after_eq w s asks, after_eq w _ asks, opened, opened', admitted]

theorem after_outcome {o : Operation} (asks : o ≠ .reanalyse) :
    { s.after w o with guesses := s.guesses } = s.opened w := by
  have guesses : (s.opened w).guesses = s.guesses := by
    rw [opened]
    split <;> rfl
  rw [after_eq w s asks]
  cases s.admitted? w <;> rw [← guesses]

/-- Guesses come from the operations since the last analysis. -/
theorem run_madeBy (settings : Settings) (steps : List (Surroundings × Operation)) :
    ∃ recent, recent <:+ steps ∧ ((start settings).run steps).MadeBy recent := by
  induction steps using List.reverseRecOn with
  | nil =>
      refine ⟨[], List.suffix_rfl, .empty, Guesses.isEmpty_empty, List.forall_mem_nil _, rfl⟩
  | append_singleton steps step ih =>
      obtain ⟨w, o⟩ := step
      rw [run_append]
      have backed := run_backedBy settings steps
      generalize (start settings).run steps = s at ih backed
      obtain ⟨recent, suffix, made⟩ := ih
      by_cases replaces : s.Replaces o
      · obtain ⟨rfl, enabled⟩ := replaces
        refine ⟨[], List.nil_suffix, s.guesses.clear, s.guesses.isEmpty_clear,
          List.forall_mem_nil _, ?_⟩
        rw [after_reanalyse, if_neg enabled]
        rfl
      by_cases ready : s.settings.support = .disable ∨ s.outcome.isSome
      · obtain ⟨earlier, rfl⟩ := suffix
        refine ⟨recent ++ [(w, o)], ⟨earlier, ?_⟩, made.after w ready replaces⟩
        rw [List.append_assoc]
      · obtain ⟨enabled, analysed⟩ := not_or.mp ready
        have unanalysed : s.outcome = none := Option.not_isSome_iff_eq_none.mp analysed
        have asks : o ≠ .reanalyse := fun again => replaces ⟨again, enabled⟩
        rw [analysis?, unanalysed] at backed
        refine ⟨[(w, o)], List.suffix_append _ _, s.guesses, backed.isEmpty, ?_, ?_⟩
        · rw [List.forall_mem_singleton]
          exact fun again => asks again.1
        · have opened : s.opened w = (analyse w s).value.2 := if_neg ready
          rw [after_outcome w asks, opened]
          exact analyse_after w enabled unanalysed asks

end Provenance

/-- No guess outlives the analysis it came from. Whatever a session was asked in whatever
surroundings, its guesses fit its present analysis, there is none that the analysis does not allow,
they fit their slots, and the operations since the analysis account for all of them. -/
theorem run_guesses (settings : Settings) (steps : List (Surroundings × Operation)) :
    let s := (start settings).run steps
    s.guesses.BackedBy s.analysis? ∧
      (s.analysis?.bind Analysis.types = none → s.guesses.types.entries = []) ∧
      (s.analysis? = none → s.guesses.IsEmpty) ∧
      s.guesses.types.size ≤ 64 ∧ s.guesses.strings.size ≤ 128 ∧
      ∃ recent, recent <:+ steps ∧ s.MadeBy recent := by
  intro s
  have backed : s.guesses.BackedBy s.analysis? := run_backedBy settings steps
  refine ⟨backed, backed.types_eq_nil, ?_, ?_, ?_, run_madeBy settings steps⟩
  · intro none
    rw [none] at backed
    exact backed.isEmpty
  · exact backed.typeRoom ▸ s.guesses.types.size_le_capacity
  · exact backed.stringRoom ▸ s.guesses.strings.size_le_capacity

end Session

end GoInspect
