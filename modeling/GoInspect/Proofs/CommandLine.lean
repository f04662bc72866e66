import GoInspect.Configuration
import GoInspect.Proofs.Text

/-!
# Command lines in turns

Arguments are read in turns. A turn takes one word, or the name of an option and its value, and
where it begins and ends depends on the words alone, not on what became of those before. The
configuration, the errors and the positional arguments are then the effects of the turns, one after
another.
-/

namespace GoInspect

namespace CommandLine

/-- The name and the value in an argument that is cut. -/
def split? (arg : Text) : Option (Text × Text) :=
  if arg.head? = some dash then Text.cut? equals arg else none

theorem split?_eq_some_iff {arg name value : Text} :
    split? arg = some (name, value) ↔
      arg.head? = some dash ∧ equals ∉ name ∧ arg = name ++ equals :: value := by
  rw [split?]
  split
  · next dashed =>
    rw [Text.cut?_eq_some_iff]
    exact (and_iff_right dashed).symm
  · next plain =>
    constructor
    · intro h
      cases h
    · intro ⟨dashed, _⟩
      exact absurd dashed plain

/-- A name that begins with a dash is cut off the value behind it. -/
theorem split?_append {name : Text} (dashed : name.head? = some dash) (free : equals ∉ name)
    (value : Text) : split? (name ++ equals :: value) = some (name, value) := by
  rw [split?_eq_some_iff]
  refine ⟨?_, free, rfl⟩
  cases name with
  | nil => cases dashed
  | cons b rest => exact dashed

theorem split?_of_free {arg : Text} (free : equals ∉ arg) : split? arg = none := by
  cases parts : split? arg with
  | none => rfl
  | some parts' =>
      obtain ⟨-, -, rfl⟩ := split?_eq_some_iff.mp parts
      exact absurd (List.mem_append_right _ List.mem_cons_self) free

namespace Cursor

variable {arg name value : Text}

@[simp] theorem next?_nil : (start []).next? = none := rfl

theorem next?_pending (arg value : Text) (rest : List Text) :
    (⟨arg :: rest, some value⟩ : Cursor).next? = some (value, start rest) := rfl

theorem next?_whole (whole : split? arg = none) (rest : List Text) :
    (start (arg :: rest)).next? = some (arg, start rest) := by
  rw [split?] at whole
  rw [start, next?, whole]

theorem next?_split (parts : split? arg = some (name, value)) (rest : List Text) :
    (start (arg :: rest)).next? = some (name, ⟨arg :: rest, some value⟩) := by
  rw [split?] at parts
  rw [start, next?, parts]

@[simp] theorem upTo_one (arg : Text) (rest : List Text) (pending : Option Text) :
    (⟨arg :: rest, pending⟩ : Cursor).upTo (start rest) = [arg] := by
  simp [upTo, start]

@[simp] theorem upTo_two (arg value : Text) (rest : List Text) :
    (start (arg :: value :: rest)).upTo (start rest) = [arg, value] := by
  have two : rest.length + 1 + 1 - rest.length = 2 := by omega
  simp [upTo, start, two]

end Cursor

variable {σ : Type}

/-- What words of a command line are taken for. -/
inductive Use (σ : Type) where
  | help (word : Text)
  /-- An option without value. -/
  | flag (name : Text) (apply : σ → σ)
  | valued (name value : Text) (apply : Text → σ → Except ErrorKind σ)
  /-- An option whose value is missing. -/
  | unvalued (name : Text)
  /-- What looks like an option and is none. -/
  | unknown (word : Text)
  /-- Anything else. -/
  | positional (word : Text)

namespace Use

/-- The word is understood, and not for a call for help. -/
def isPlain : Use σ → Bool
  | help _ | unvalued _ | unknown _ => false
  | flag _ _ | valued _ _ _ | positional _ => true

def positional? : Use σ → Option Text
  | positional word => some word
  | _ => none

def words (uses : List (Use σ)) : List Text := uses.filterMap positional?

theorem words_cons (use : Use σ) (uses : List (Use σ)) :
    words (use :: uses) = use.positional?.toList ++ words uses := by
  rw [words, words]
  cases word : use.positional? with
  | none => rw [List.filterMap_cons_none word]; rfl
  | some word' => rw [List.filterMap_cons_some word]; rfl

@[simp] theorem words_positional (word : Text) (uses : List (Use σ)) :
    words (.positional word :: uses) = word :: words uses := rfl

@[simp] theorem words_valued (name value : Text) (apply : Text → σ → Except ErrorKind σ)
    (uses : List (Use σ)) : words (.valued name value apply :: uses) = words uses := rfl

end Use

/-- A turn of reading arguments. -/
structure Turn (σ : Type) where
  /-- What the words are taken for. -/
  use : Use σ
  /-- The arguments that an error names. -/
  inputs : List Text

/-- What becomes of the arguments with another turn. -/
def Turn.apply (t : Turn σ) (p : Parsed σ) : Parsed σ :=
  match t.use with
  | .help _ => { p with wantsHelp := true }
  | .flag _ apply => { p with configuration := apply p.configuration }
  | .valued _ value apply =>
    match apply value p.configuration with
    | .ok configuration => { p with configuration }
    | .error kind => { p with errors := p.errors ++ [⟨kind, t.inputs⟩] }
  | .unvalued _ => { p with errors := p.errors ++ [⟨.missingValue, t.inputs⟩] }
  | .unknown _ => { p with errors := p.errors ++ [⟨.unrecognized, t.inputs⟩] }
  | .positional word => { p with positional := p.positional ++ [word] }

namespace Registry

variable (r : Registry σ)

/-- The turn that begins at a place, and the place where it ends. -/
def turn? (c : Cursor) : Option (Turn σ × Cursor) :=
  match c.next? with
  | none => none
  | some (word, rest) =>
    if helpNames.contains word then some (⟨.help word, c.upTo rest⟩, rest)
    else
      match (r.find? word).map CommandOption.action with
      | none =>
        if looksLikeOption word then some (⟨.unknown word, c.upTo rest⟩, rest)
        else some (⟨.positional word, c.upTo rest⟩, rest)
      | some (.flag apply) => some (⟨.flag word apply, c.upTo rest⟩, rest)
      | some (.value apply) =>
        match rest.next? with
        | none => some (⟨.unvalued word, c.upTo rest⟩, rest)
        | some (value, rest') => some (⟨.valued word value apply, c.upTo rest'⟩, rest')

section

variable {r} {c rest rest' : Cursor} {word value : Text} {apply : Text → σ → Except ErrorKind σ}

theorem turn?_help (next : c.next? = some (word, rest)) (asked : word ∈ helpNames) :
    r.turn? c = some (⟨.help word, c.upTo rest⟩, rest) := by
  simp only [turn?, next, List.contains_iff_mem, if_pos asked]

theorem turn?_flag {apply : σ → σ} (next : c.next? = some (word, rest)) (other : word ∉ helpNames)
    (named : (r.find? word).map CommandOption.action = some (.flag apply)) :
    r.turn? c = some (⟨.flag word apply, c.upTo rest⟩, rest) := by
  simp only [turn?, next, List.contains_iff_mem, if_neg other, named]

theorem turn?_valued (next : c.next? = some (word, rest)) (other : word ∉ helpNames)
    (named : (r.find? word).map CommandOption.action = some (.value apply))
    (next' : rest.next? = some (value, rest')) :
    r.turn? c = some (⟨.valued word value apply, c.upTo rest'⟩, rest') := by
  simp only [turn?, next, List.contains_iff_mem, if_neg other, named, next']

theorem turn?_unvalued (next : c.next? = some (word, rest)) (other : word ∉ helpNames)
    (named : (r.find? word).map CommandOption.action = some (.value apply))
    (last : rest.next? = none) :
    r.turn? c = some (⟨.unvalued word, c.upTo rest⟩, rest) := by
  simp only [turn?, next, List.contains_iff_mem, if_neg other, named, last]

theorem turn?_unknown (next : c.next? = some (word, rest)) (other : word ∉ helpNames)
    (unnamed : r.find? word = none) (dashed : looksLikeOption word = true) :
    r.turn? c = some (⟨.unknown word, c.upTo rest⟩, rest) := by
  simp only [turn?, next, List.contains_iff_mem, if_neg other, unnamed, Option.map_none,
    if_pos dashed]

theorem turn?_positional (next : c.next? = some (word, rest)) (other : word ∉ helpNames)
    (unnamed : r.find? word = none) (plain : ¬ looksLikeOption word = true) :
    r.turn? c = some (⟨.positional word, c.upTo rest⟩, rest) := by
  simp only [turn?, next, List.contains_iff_mem, if_neg other, unnamed, Option.map_none,
    if_neg plain]

end

theorem weight_turn? {c rest : Cursor} {t : Turn σ} (h : r.turn? c = some (t, rest)) :
    rest.weight < c.weight := by
  rw [turn?] at h
  split at h
  · cases h
  · next word rest' first =>
    have less := Cursor.weight_next? first
    split at h
    · cases h
      exact less
    · split at h
      · split at h <;> cases h <;> exact less
      · cases h
        exact less
      · split at h
        · cases h
          exact less
        · next second =>
          cases h
          exact Nat.lt_trans (Cursor.weight_next? second) less

/-- The turns from a place on. -/
def turnsFrom (c : Cursor) : List (Turn σ) :=
  match _h : r.turn? c with
  | none => []
  | some (t, rest) => t :: turnsFrom rest
termination_by c.weight
decreasing_by exact r.weight_turn? _h

def turns (args : List Text) : List (Turn σ) := r.turnsFrom (.start args)

theorem turnsFrom_of_none {c : Cursor} (h : c.next? = none) : r.turnsFrom c = [] := by
  rw [turnsFrom, turn?, h]

theorem turnsFrom_of_some {c rest : Cursor} {t : Turn σ} (h : r.turn? c = some (t, rest)) :
    r.turnsFrom c = t :: r.turnsFrom rest := by
  rw [turnsFrom]
  split
  · next h' => rw [h] at h'; cases h'
  · next h' => rw [h] at h'; cases h'; rfl

/-- What becomes of arguments is what the turns make of them. -/
theorem parseFrom_eq_foldl (c : Cursor) (p : Parsed σ) :
    r.parseFrom c p = (r.turnsFrom c).foldl (fun p t => t.apply p) p := by
  fun_induction parseFrom with
  | case1 c p stop => rw [r.turnsFrom_of_none stop, List.foldl_nil]
  | case2 c p word rest next asked ih =>
      rw [ih, r.turnsFrom_of_some (turn?_help next asked)]
      rfl
  | case3 c p word rest next other apply named ih =>
      rw [ih, r.turnsFrom_of_some (turn?_flag next other named)]
      rfl
  | case4 c p word rest next other apply named last =>
      rw [r.turnsFrom_of_some (turn?_unvalued next other named last), r.turnsFrom_of_none last]
      rfl
  | case5 c p word rest next other apply named value rest' next' configuration result ih =>
      rw [ih, r.turnsFrom_of_some (turn?_valued next other named next'), List.foldl_cons,
        Turn.apply]
      simp only [result]
  | case6 c p word rest next other apply named value rest' next' kind result ih =>
      rw [ih, r.turnsFrom_of_some (turn?_valued next other named next'), List.foldl_cons,
        Turn.apply]
      simp only [result]
  | case7 c p word rest next other unnamed dashed ih =>
      rw [ih, r.turnsFrom_of_some
        (turn?_unknown next other (Option.map_eq_none_iff.mp unnamed) dashed)]
      rfl
  | case8 c p word rest next other unnamed plain ih =>
      rw [ih, r.turnsFrom_of_some
        (turn?_positional next other (Option.map_eq_none_iff.mp unnamed) plain)]
      rfl

@[simp] theorem turns_nil : r.turns [] = [] := r.turnsFrom_of_none Cursor.next?_nil

section

variable {r} {arg name value front back : Text}
variable {apply : Text → σ → Except ErrorKind σ}

/-- An option and its value in one argument. -/
theorem turns_inline (parts : split? arg = some (name, value)) (other : name ∉ helpNames)
    (named : (r.find? name).map CommandOption.action = some (.value apply)) (rest : List Text) :
    r.turns (arg :: rest) = ⟨.valued name value apply, [arg]⟩ :: r.turns rest := by
  have turn := turn?_valued (Cursor.next?_split parts rest) other named
    (Cursor.next?_pending arg value rest)
  rw [turns, r.turnsFrom_of_some turn, Cursor.start, Cursor.upTo_one, turns]

/-- An option and its value in two arguments. -/
theorem turns_separate (whole : split? name = none) (other : name ∉ helpNames)
    (named : (r.find? name).map CommandOption.action = some (.value apply))
    (whole' : split? value = none) (rest : List Text) :
    r.turns (name :: value :: rest) =
      ⟨.valued name value apply, [name, value]⟩ :: r.turns rest := by
  have turn := turn?_valued (Cursor.next?_whole whole (value :: rest)) other named
    (Cursor.next?_whole whole' rest)
  rw [turns, r.turnsFrom_of_some turn, Cursor.upTo_two, turns]

/-- A value that is cut like an option. The turn ends inside it. -/
theorem turns_halved (whole : split? name = none) (other : name ∉ helpNames)
    (named : (r.find? name).map CommandOption.action = some (.value apply))
    (parts : split? value = some (front, back)) (rest : List Text) :
    r.turns (name :: value :: rest) =
      ⟨.valued name front apply, [name]⟩ :: r.turnsFrom ⟨value :: rest, some back⟩ := by
  have turn := turn?_valued (Cursor.next?_whole whole (value :: rest)) other named
    (Cursor.next?_split parts rest)
  rw [turns, r.turnsFrom_of_some turn]
  simp [Cursor.upTo, Cursor.start]

end

end Registry

/-- The option has a value, and refuses it for a reason that is not one of reading arguments. -/
def Action.TakesValue : Action σ → Prop
  | .flag _ => False
  | .value apply => ∀ value s kind, apply value s = .error kind →
      kind ≠ .missingValue ∧ kind ≠ .unrecognized

theorem Action.TakesValue.exists_apply {action : Action σ} (h : action.TakesValue) :
    ∃ apply, action = .value apply := by
  cases action with
  | flag _ => exact h.elim
  | value apply => exact ⟨apply, rfl⟩

/-- The names of options begin with a dash, are not cut, and are none of the words for help. Every
option has a value. -/
structure Registry.Proper (r : Registry σ) : Prop where
  dashed {name : Text} {o : CommandOption σ} (named : r.find? name = some o) :
    name.head? = some dash
  uncut {name : Text} {o : CommandOption σ} (named : r.find? name = some o) : equals ∉ name
  other {name : Text} {o : CommandOption σ} (named : r.find? name = some o) :
    name ∉ Registry.helpNames
  valued {name : Text} {o : CommandOption σ} (named : r.find? name = some o) :
    o.action.TakesValue

theorem Registry.Proper.exists_named {r : Registry σ} (proper : r.Proper) {name : Text}
    {o : CommandOption σ} (named : r.find? name = some o) :
    ∃ apply : Text → σ → Except ErrorKind σ,
      (r.find? name).map CommandOption.action = some (.value apply) ∧ o.action = .value apply := by
  obtain ⟨apply, action⟩ := (proper.valued named).exists_apply
  exact ⟨apply, by rw [named, Option.map_some, action], action⟩

end CommandLine

namespace Configuration

open CommandLine

def optionNames : List Text :=
  [utf8 "-l", utf8 "--log", utf8 "-s", utf8 "--support", utf8 "-c", utf8 "--confidence", utf8 "-d",
    utf8 "--depth", utf8 "--swiss-dir-cap", utf8 "--overflow-depth"]

theorem mem_optionNames {usage : Text} {files : FileTree} {name : Text}
    {o : CommandOption Configuration} (named : (registry usage files).find? name = some o) :
    name ∈ optionNames := by
  have listed := List.mem_of_find?_eq_some named
  have called := List.find?_some named
  simp only [CommandOption.hasName, Bool.and_eq_true, Bool.or_eq_true, beq_iff_eq,
    Bool.not_eq_true', List.isEmpty_eq_false_iff] at called
  obtain ⟨some, same⟩ := called
  simp only [registry, List.mem_cons, List.not_mem_nil, or_false] at listed
  rcases listed with rfl | rfl | rfl | rfl | rfl | rfl <;> rcases same with rfl | rfl <;>
    simp_all [optionNames, logOption, supportOption, confidenceOption, depthOption,
      directoryCapOption, overflowOption]

theorem takesValue_choice {α σ : Type} [Enumeration α] (apply : α → σ → σ) :
    (choice apply).TakesValue := by
  intro value s kind refused
  beta_reduce at refused
  split at refused
  · cases refused
  · cases refused
    decide

theorem takesValue_number {α σ : Type} (read : Text → Option α)
    {apply : α → σ → Except ErrorKind σ} (refuses : ∀ n s kind, apply n s = .error kind →
      kind ≠ .missingValue ∧ kind ≠ .unrecognized) :
    (number read apply).TakesValue := by
  intro value s kind refused
  beta_reduce at refused
  split at refused
  · exact refuses _ _ _ refused
  · cases refused
    decide

theorem takesValue_log (files : FileTree) : (logOption files).action.TakesValue := by
  intro value s kind refused
  beta_reduce at refused
  split at refused
  · cases refused
  · cases refused
    decide

theorem takesValue_directoryCap : directoryCapOption.action.TakesValue := by
  refine takesValue_number _ ?_
  intro n s kind refused
  split at refused
  · cases refused
    decide
  · cases refused

theorem registry_proper (usage : Text) (files : FileTree) : (registry usage files).Proper := by
  have good : ∀ name ∈ optionNames,
      name.head? = some dash ∧ equals ∉ name ∧ name ∉ Registry.helpNames := by decide
  constructor
  · intro name o named
    exact (good name (mem_optionNames named)).1
  · intro name o named
    exact (good name (mem_optionNames named)).2.1
  · intro name o named
    exact (good name (mem_optionNames named)).2.2
  · intro name o named
    have listed := List.mem_of_find?_eq_some named
    simp only [registry, List.mem_cons, List.not_mem_nil, or_false] at listed
    rcases listed with rfl | rfl | rfl | rfl | rfl | rfl
    · exact takesValue_log files
    · exact takesValue_choice _
    · exact takesValue_choice _
    · exact takesValue_number _ fun _ _ _ refused => nomatch refused
    · exact takesValue_directoryCap
    · exact takesValue_number _ fun _ _ _ refused => nomatch refused

end Configuration

end GoInspect
