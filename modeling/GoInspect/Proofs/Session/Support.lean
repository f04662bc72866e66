import GoInspect.Proofs.Session

/-!
# Support is given up once and for all

An analysis may give up support of a binary, and nothing gives it back. A session whose support is
disabled answers everything with a refusal and stays as it is; until then only its first operation
and requests for an analysis analyse the binary.
-/

namespace GoInspect

namespace Session

/-- What an operation is answered with. -/
def Operation.Answer : Operation → Type
  | .findFunction _ => Except QueryError FunctionInfo
  | .findFunctionsNamed _ | .listFunctions => Except QueryError (List FunctionInfo)
  | .getTypeAt .. | .getTypeNamed .. => Except QueryError TypeInfo
  | .listTypes _ => Except QueryError (List TypeInfo)
  | .unpackAt .. | .unpackNamed .. => Except QueryError Text
  | .backtrace .. => Except QueryError (List FrameInfo)
  | .annotate .. => Text
  | .onStop _ | .reanalyse => Unit

/-- The answer of an operation that support is disabled for: all questions fail for that reason, and
there is no remark. -/
def Operation.disabled : (o : Operation) → o.Answer
  | .annotate .. => []
  | .onStop _ | .reanalyse => ()
  | .findFunction _ | .findFunctionsNamed _ | .listFunctions | .getTypeAt .. | .getTypeNamed ..
  | .listTypes _ | .unpackAt .. | .unpackNamed .. | .backtrace .. => .error .disabled

variable (w : Surroundings)

/-- An operation with its answer. -/
def perform : (o : Operation) → Asking o.Answer
  | .findFunction address => findFunction w address
  | .findFunctionsNamed name => findFunctionsNamed w name
  | .listFunctions => listFunctions w
  | .getTypeAt address depth => getTypeAt w address depth
  | .getTypeNamed text depth => getTypeNamed w text depth
  | .listTypes depth => listTypes w depth
  | .unpackAt object type depth => unpackAt w object type depth
  | .unpackNamed object type depth => unpackNamed w object type depth
  | .backtrace p limit => backtrace w p limit
  | .annotate value containing => annotate w value containing
  | .onStop p => onStop w p
  | .reanalyse => reanalyse w

variable {s : Session}

/-- Performing an operation leaves the session that follows it. -/
theorem perform_session (s : Session) (o : Operation) :
    (perform w o s).value.2 = s.after w o := by
  cases o <;> rfl

/-- A step that has an answer and leaves nothing else behind. -/
theorem bind_of_settled {α β : Type} {step : Asking α} {a : α}
    (settled : step s = ⟨(a, s), []⟩) (next : α → Asking β) :
    (step >>= next) s = next a s := by
  show (step s >>= fun found => next found.1 found.2) = _
  rw [settled]
  rfl

section Disabled

variable (disabled : s.settings.support = .disable)
include disabled

theorem acquire_disabled : acquire w s = ⟨(.error .disabled, s), []⟩ := by
  rw [acquire, bind_of_settled (a := s) rfl, if_pos disabled]
  rfl

theorem ask_disabled {α : Type} (answer : Analysis → Except QueryError α) :
    ask w answer s = ⟨(.error .disabled, s), []⟩ :=
  bind_of_settled (acquire_disabled w disabled) _

theorem unpackBy_disabled (type : Analysis → TypeGraph → Except QueryError GoType)
    (object : UInt64) (depth : UInt32) :
    unpackBy w type object depth s = ⟨(.error .disabled, s), []⟩ :=
  bind_of_settled (ask_disabled w disabled _) _

theorem reanalyse_disabled : reanalyse w s = ⟨((), s), []⟩ := by
  rw [reanalyse, bind_of_settled (a := s) rfl, if_neg (not_not_intro disabled)]
  rfl

/-- Where support is disabled, every operation is refused, changes nothing and says nothing. -/
theorem perform_disabled (o : Operation) : perform w o s = ⟨(o.disabled, s), []⟩ := by
  cases o with
  | unpackAt object type depth => exact unpackBy_disabled w disabled _ object depth
  | unpackNamed object type depth => exact unpackBy_disabled w disabled _ object depth
  | backtrace p limit => exact bind_of_settled (acquire_disabled w disabled) _
  | annotate value containing => exact bind_of_settled (acquire_disabled w disabled) _
  | onStop p => exact bind_of_settled (acquire_disabled w disabled) _
  | reanalyse => exact reanalyse_disabled w disabled
  | _ => exact ask_disabled w disabled _

theorem after_disabled (o : Operation) : s.after w o = s := by
  rw [← perform_session, perform_disabled w disabled]

omit w in
theorem run_disabled (steps : List (Surroundings × Operation)) : s.run steps = s := by
  induction steps with
  | nil => rfl
  | cons step rest ih =>
      show (s.after step.1 step.2).run rest = s
      rw [after_disabled step.1 disabled, ih]

end Disabled

section Analysing

/-- An operation analyses the binary: unless support is disabled, a request for it does, and so does
any operation that finds no analysis. -/
def Analyses (s : Session) (o : Operation) : Prop :=
  s.settings.support ≠ .disable ∧ (o = .reanalyse ∨ s.outcome = none)

/-- What an analysis finds, and the level of support after it. -/
def found (s : Session) : Option Analysis × SupportLevel :=
  (Analysis.run w.image w.memory w.architecture.pointerWidth s.settings.support).value

variable {w}

theorem after_of_analyses {o : Operation} (analyses : s.Analyses o) :
    (s.after w o).outcome = some (s.found w).1 ∧
      (s.after w o).settings = { s.settings with support := (s.found w).2 } := by
  obtain ⟨enabled, asked⟩ := analyses
  by_cases again : o = .reanalyse
  · rw [again, after_reanalyse, if_neg enabled]
    exact ⟨rfl, rfl⟩
  · have unanalysed := asked.resolve_left again
    have unready : ¬ (s.settings.support = .disable ∨ s.outcome.isSome) := by
      simp [enabled, unanalysed]
    have opened : s.opened w = (analyse w s).value.2 := if_neg unready
    have kept := after_outcome w (s := s) again
    rw [opened] at kept
    exact ⟨congrArg outcome kept, congrArg Session.settings kept⟩

theorem after_of_not_analyses {o : Operation} (keeps : ¬ s.Analyses o) :
    (s.after w o).settings = s.settings ∧ (s.after w o).outcome = s.outcome := by
  refine after_ready w ?_ fun replaces => keeps ⟨replaces.2, .inl replaces.1⟩
  by_cases disabled : s.settings.support = .disable
  · exact .inl disabled
  · refine .inr (Option.isSome_iff_ne_none.mpr fun unanalysed => ?_)
    exact keeps ⟨disabled, .inr unanalysed⟩

/-- The settings stay, or the operation analysed a portable executable without success. -/
theorem after_settings (s : Session) (o : Operation) :
    (s.after w o).settings = s.settings ∨
      s.settings.support = .auto ∧
        (s.after w o).settings = { s.settings with support := .disable } ∧
        s.Analyses o ∧ w.image.format = .portableExecutable ∧
        (s.after w o).outcome = some none := by
  by_cases analyses : s.Analyses o
  · obtain ⟨outcome, settings⟩ := after_of_analyses (w := w) analyses
    obtain kept | ⟨none, given⟩ := Analysis.run_level w.image w.memory
      w.architecture.pointerWidth s.settings.support
    · exact .inl (settings.trans (by rw [found, kept]))
    · refine .inr ⟨given.before, ?_, analyses, given.executable, ?_⟩
      · rw [settings, found, given.after]
      · rw [outcome, found, none]
  · exact .inl (after_of_not_analyses analyses).1

/-- An operation that leaves support enabled leaves an analysis. -/
theorem after_analysed {o : Operation} (enabled : (s.after w o).settings.support ≠ .disable) :
    (s.after w o).outcome.isSome := by
  by_cases analyses : s.Analyses o
  · rw [(after_of_analyses analyses).1]
    rfl
  · obtain ⟨settings, outcome⟩ := after_of_not_analyses (w := w) analyses
    rw [settings] at enabled
    rw [outcome]
    exact Option.isSome_iff_ne_none.mpr fun unanalysed => analyses ⟨enabled, .inr unanalysed⟩

/-- Support is disabled only together with what was found. -/
theorem after_analysis?_eq_none {o : Operation}
    (before : s.settings.support = .disable → s.analysis? = none)
    (disabled : (s.after w o).settings.support = .disable) : (s.after w o).analysis? = none := by
  obtain kept | ⟨_, _, _, _, outcome⟩ := after_settings (w := w) s o
  · rw [kept] at disabled
    rw [after_disabled w disabled]
    exact before disabled
  · rw [analysis?, outcome]
    rfl

end Analysing

section Runs

variable (settings : Settings) (steps : List (Surroundings × Operation))

theorem run_analysis?_eq_none :
    ((start settings).run steps).settings.support = .disable →
      ((start settings).run steps).analysis? = none := by
  induction steps using List.reverseRecOn with
  | nil => exact fun _ => rfl
  | append_singleton steps step ih =>
      rw [run_append]
      exact after_analysis?_eq_none ih

theorem run_analysed (some : steps ≠ [])
    (enabled : ((start settings).run steps).settings.support ≠ .disable) :
    ((start settings).run steps).outcome.isSome := by
  cases steps using List.reverseRecOn with
  | nil => exact absurd rfl some
  | append_singleton before step =>
      rw [run_append] at enabled ⊢
      exact after_analysed enabled

/-- Support is given up once and for all. An operation leaves the settings alone, or it analyses a
portable executable without finding anything, and the level falls from automatic to disabled. A
session whose support is disabled holds no analysis and no guesses, refuses everything, and stays as
it is for the rest of the run. Until then its first operation and requests for an analysis replace
the analysis, by what is found in the surroundings they come with, and no other operation does. -/
theorem run_support (w : Surroundings) (o : Operation) :
    let s := (start settings).run steps
    ((s.after w o).settings = s.settings ∨
      s.settings.support = .auto ∧
        (s.after w o).settings = { s.settings with support := .disable } ∧
        s.Analyses o ∧ w.image.format = .portableExecutable ∧
        (s.after w o).outcome = some none) ∧
    (s.settings.support = .disable →
      s.analysis? = none ∧ s.guesses.IsEmpty ∧
        ∀ later, s.run later = s ∧ ∀ w o, perform w o (s.run later) = ⟨(o.disabled, s), []⟩) ∧
    (s.settings.support ≠ .disable →
      (steps = [] ∨ o = .reanalyse → (s.after w o).outcome = some (s.found w).1) ∧
        (steps ≠ [] → o ≠ .reanalyse → (s.after w o).outcome = s.outcome)) := by
  intro s
  refine ⟨after_settings s o, fun disabled => ?_, fun enabled => ⟨fun asked => ?_, ?_⟩⟩
  · have none : s.analysis? = none := run_analysis?_eq_none settings steps disabled
    have backed : s.guesses.BackedBy s.analysis? := run_backedBy settings steps
    rw [none] at backed
    refine ⟨none, backed.isEmpty, fun later => ?_⟩
    have still := run_disabled disabled later
    exact ⟨still, fun w o => by rw [still, perform_disabled w disabled]⟩
  · refine (after_of_analyses ⟨enabled, asked.symm.imp id ?_⟩).1
    rintro rfl
    rfl
  · intro some other
    have analysed : s.outcome.isSome := run_analysed settings steps some enabled
    refine (after_of_not_analyses ?_).2
    rintro ⟨_, again | unanalysed⟩
    · exact other again
    · rw [unanalysed] at analysed
      cases analysed

/-- A portable executable without a section for the table. -/
def executable : Surroundings where
  image := ⟨.portableExecutable, []⟩
  memory := MappedMemory.empty.toMemory
  architecture := .x86_64

/-- The first question finds that the binary is no Go binary, and the next one that support is
disabled. -/
theorem run_support_executable :
    (perform executable .listFunctions (start {})).value.1 = .error .notGo ∧
      let s := (start {}).run [(executable, .listFunctions)]
      s.settings.support = .disable ∧
        perform executable .listFunctions s = ⟨(.error .disabled, s), []⟩ := by
  refine ⟨rfl, rfl, ?_⟩
  have support := run_support {} [(executable, .listFunctions)] executable .listFunctions
  exact ((support.2.1 rfl).2.2 []).2 executable .listFunctions

end Runs

end Session

end GoInspect
