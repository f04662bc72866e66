import GoInspect.Proofs.CommandLine

/-!
# The two spellings of an option

The value of an option stands behind an equals sign or in an argument of its own. Both spellings
mean the same, unless the value itself begins with a dash and has an equals sign: in an argument of
its own such a value is cut, the option is given the first half, and the second half is read as a
word.
-/

namespace GoInspect

namespace CommandLine

variable {σ : Type}

/-- Two outcomes differ at most in the arguments that errors name. -/
structure Parsed.SameOutcome (p q : Parsed σ) : Prop where
  configuration : p.configuration = q.configuration
  positional : p.positional = q.positional
  wantsHelp : p.wantsHelp = q.wantsHelp
  kinds : p.errors.map ArgumentError.kind = q.errors.map ArgumentError.kind

namespace Parsed.SameOutcome

variable {p q : Parsed σ}

theorem refl (p : Parsed σ) : p.SameOutcome p := ⟨rfl, rfl, rfl, rfl⟩

/-- Turns that take the words for the same have the same outcome. -/
theorem apply (h : p.SameOutcome q) {t t' : Turn σ} (same : t.use = t'.use) :
    (t.apply p).SameOutcome (t'.apply q) := by
  obtain ⟨configuration, positional, wantsHelp, kinds⟩ := h
  rw [Turn.apply, Turn.apply, ← same]
  cases t.use with
  | help word => exact ⟨configuration, positional, rfl, kinds⟩
  | flag name apply => exact ⟨congrArg apply configuration, positional, wantsHelp, kinds⟩
  | valued name value apply =>
      simp only [← configuration]
      split
      · exact ⟨rfl, positional, wantsHelp, kinds⟩
      · exact ⟨rfl, positional, wantsHelp, by simp [kinds]⟩
  | unvalued name => exact ⟨configuration, positional, wantsHelp, by simp [kinds]⟩
  | unknown word => exact ⟨configuration, positional, wantsHelp, by simp [kinds]⟩
  | positional word => exact ⟨configuration, by rw [positional], wantsHelp, kinds⟩

theorem foldl (h : p.SameOutcome q) (ts : List (Turn σ)) :
    (ts.foldl (fun p t => t.apply p) p).SameOutcome (ts.foldl (fun p t => t.apply p) q) := by
  induction ts generalizing p q with
  | nil => exact h
  | cons t rest ih => exact ih (h.apply rfl)

end Parsed.SameOutcome

/-- Nothing but values of options was read. -/
structure Parsed.IsQuiet (p : Parsed σ) : Prop where
  positional : p.positional = []
  wantsHelp : p.wantsHelp = false
  kinds : ∀ kind ∈ p.errors.map ArgumentError.kind,
    kind ≠ ErrorKind.missingValue ∧ kind ≠ ErrorKind.unrecognized

theorem Parsed.SameOutcome.isQuiet {p q : Parsed σ} (h : p.SameOutcome q) (quiet : p.IsQuiet) :
    q.IsQuiet where
  positional := h.positional ▸ quiet.positional
  wantsHelp := h.wantsHelp ▸ quiet.wantsHelp
  kinds := h.kinds ▸ quiet.kinds

namespace Registry

variable {r : Registry σ} {name value front back : Text} {o : CommandOption σ}

/-- An option and its value. -/
theorem Proper.isQuiet_valued (proper : r.Proper) (named : r.find? name = some o)
    {apply : Text → σ → Except ErrorKind σ} (action : o.action = .value apply)
    {p : Parsed σ} (quiet : p.IsQuiet) (inputs : List Text) :
    (Turn.apply ⟨.valued name value apply, inputs⟩ p).IsQuiet := by
  have refuses := proper.valued named
  rw [action] at refuses
  rw [Turn.apply]
  dsimp only
  split
  · exact ⟨quiet.positional, quiet.wantsHelp, quiet.kinds⟩
  · next kind refused =>
    refine ⟨quiet.positional, quiet.wantsHelp, ?_⟩
    rw [List.map_append, List.forall_mem_append]
    exact ⟨quiet.kinds, List.forall_mem_singleton.mpr (refuses _ _ _ refused)⟩

/-- A word that is left over at the end shows in the outcome. -/
theorem Proper.not_isQuiet_rest (proper : r.Proper) (arg word : Text) (p : Parsed σ) :
    ¬ ((r.turnsFrom ⟨[arg], some word⟩).foldl (fun p t => t.apply p) p).IsQuiet := by
  have next : (⟨[arg], some word⟩ : Cursor).next? = some (word, .start []) := rfl
  intro quiet
  by_cases asked : word ∈ helpNames
  · rw [r.turnsFrom_of_some (turn?_help next asked), r.turnsFrom_of_none Cursor.next?_nil] at quiet
    cases quiet.wantsHelp
  cases named : r.find? word with
  | some o =>
      obtain ⟨apply, named', -⟩ := proper.exists_named named
      rw [r.turnsFrom_of_some (turn?_unvalued next asked named' Cursor.next?_nil),
        r.turnsFrom_of_none Cursor.next?_nil] at quiet
      exact (quiet.kinds .missingValue (by simp [Turn.apply])).1 rfl
  | none =>
      by_cases dashed : looksLikeOption word = true
      · rw [r.turnsFrom_of_some (turn?_unknown next asked named dashed),
          r.turnsFrom_of_none Cursor.next?_nil] at quiet
        exact (quiet.kinds .unrecognized (by simp [Turn.apply])).2 rfl
      · rw [r.turnsFrom_of_some (turn?_positional next asked named dashed),
          r.turnsFrom_of_none Cursor.next?_nil] at quiet
        exact List.append_ne_nil_of_right_ne_nil _ (List.cons_ne_nil _ _) quiet.positional

/-- The environment changes the configuration only. -/
theorem isQuiet_parse_iff {args : List Text} {environment : Text → Option Text} {defaults : σ} :
    (r.parse args environment defaults).IsQuiet ↔
      (r.parseFrom (.start args) ⟨defaults, [], [], false⟩).IsQuiet :=
  ⟨fun h => ⟨h.positional, h.wantsHelp, h.kinds⟩, fun h => ⟨h.positional, h.wantsHelp, h.kinds⟩⟩

theorem sameOutcome_parse {args args' : List Text} {defaults : σ}
    (h : (r.parseFrom (.start args) ⟨defaults, [], [], false⟩).SameOutcome
      (r.parseFrom (.start args') ⟨defaults, [], [], false⟩))
    (environment : Text → Option Text) :
    (r.parse args environment defaults).SameOutcome (r.parse args' environment defaults) :=
  ⟨congrArg (r.applyEnvironment environment) h.configuration, h.positional, h.wantsHelp, h.kinds⟩

section

variable (proper : r.Proper) (named : r.find? name = some o)
include proper named

/-- The spellings mean the same where the value is not cut, whatever was read before. -/
theorem Proper.sameOutcome (whole : split? value = none) (following : List Text) (p : Parsed σ) :
    (r.parseFrom (.start ((name ++ equals :: value) :: following)) p).SameOutcome
      (r.parseFrom (.start (name :: value :: following)) p) := by
  obtain ⟨apply, named', -⟩ := proper.exists_named named
  have free := proper.uncut named
  have inline := turns_inline (split?_append (proper.dashed named) free value)
    (proper.other named) named' following
  have separate := turns_separate (split?_of_free free) (proper.other named) named' whole following
  rw [turns] at inline separate
  rw [parseFrom_eq_foldl, parseFrom_eq_foldl, inline, separate, List.foldl_cons, List.foldl_cons]
  -- The turns are the same, but for the arguments that an error names.
  apply Parsed.SameOutcome.foldl
  exact (Parsed.SameOutcome.refl p).apply rfl

theorem Proper.isQuiet_inline {p : Parsed σ} (quiet : p.IsQuiet) :
    (r.parseFrom (.start [name ++ equals :: value]) p).IsQuiet := by
  obtain ⟨apply, named', action⟩ := proper.exists_named named
  have inline := turns_inline (split?_append (proper.dashed named) (proper.uncut named) value)
    (proper.other named) named' []
  rw [turns, turns_nil] at inline
  rw [parseFrom_eq_foldl, inline]
  exact proper.isQuiet_valued named action quiet _

/-- The second half of a value that is cut shows in the outcome. -/
theorem Proper.not_isQuiet_halved (parts : split? value = some (front, back)) (p : Parsed σ) :
    ¬ (r.parseFrom (.start [name, value]) p).IsQuiet := by
  obtain ⟨apply, named', -⟩ := proper.exists_named named
  have halved := turns_halved (split?_of_free (proper.uncut named)) (proper.other named) named'
    parts []
  rw [turns] at halved
  rw [parseFrom_eq_foldl, halved]
  exact proper.not_isQuiet_rest value back _

end

end Registry

end CommandLine

namespace Configuration

open CommandLine

/-- An option and its value mean the same in one argument and in two, whatever follows, exactly if
the value is not cut itself. -/
theorem parse_spellings_iff {usage : Text} {files : FileTree} {name : Text}
    {o : CommandOption Configuration} (named : (registry usage files).find? name = some o)
    (environment : Text → Option Text) (value : Text) :
    (∀ following,
      ((registry usage files).parse ((name ++ equals :: value) :: following) environment
        (default files)).SameOutcome
      ((registry usage files).parse (name :: value :: following) environment (default files))) ↔
    split? value = none := by
  have proper := registry_proper usage files
  constructor
  · intro same
    cases parts : split? value with
    | none => rfl
    | some halves =>
        -- Without anything following, one spelling is quiet and the other is not.
        have quiet : ((registry usage files).parse [name ++ equals :: value] environment
            (default files)).IsQuiet := by
          rw [Registry.isQuiet_parse_iff]
          exact proper.isQuiet_inline named ⟨rfl, rfl, List.forall_mem_nil _⟩
        have quiet' := (same []).isQuiet quiet
        rw [Registry.isQuiet_parse_iff] at quiet'
        exact absurd quiet' (proper.not_isQuiet_halved named parts _)
  · intro whole following
    exact Registry.sameOutcome_parse (proper.sameOutcome named whole following _) environment

/-- A working directory with a directory whose name is cut like an option. -/
def dashedTree : FileTree := ⟨[([utf8 "-x=y"], .directory)], []⟩

theorem parse_spellings_dashed :
    ((registry [] dashedTree).find? (utf8 "--log")).isSome = true ∧
      ¬ ∀ following,
        ((registry [] dashedTree).parse ((utf8 "--log" ++ equals :: utf8 "-x=y") :: following)
          (fun _ => none) (default dashedTree)).SameOutcome
        ((registry [] dashedTree).parse (utf8 "--log" :: utf8 "-x=y" :: following)
          (fun _ => none) (default dashedTree)) := by
  have listed : ((registry [] dashedTree).find? (utf8 "--log")).isSome = true := by decide
  obtain ⟨o, named⟩ := Option.isSome_iff_exists.mp listed
  refine ⟨listed, ?_⟩
  rw [parse_spellings_iff named]
  decide

end Configuration

end GoInspect
