import GoInspect.Proofs.CommandLine

/-!
# Every argument is accounted for

Arguments that are read without an error and without a call for help should be positional arguments,
options with their values, and options followed by their values, each read once and as a whole. They
are, exactly if nothing is cut but an option from its value. A value in an argument of its own can
be cut too, and so can an argument that begins with a dash and an equals sign: the second half is
then read as a word.
-/

namespace GoInspect

namespace CommandLine

variable {σ : Type}

/-- Each argument is read once, as a whole: the uses take the arguments one after another. The last
list holds the arguments that are no options. -/
inductive Accounted (r : Registry σ) : List (Use σ) → List Text → List Text → Prop where
  | nil : Accounted r [] [] []
  /-- An argument that is no option. -/
  | positional {word : Text} {uses : List (Use σ)} {args words : List Text}
      (unnamed : r.find? word = none) (rest : Accounted r uses args words) :
      Accounted r (.positional word :: uses) (word :: args) (word :: words)
  /-- An option with its value in one argument. -/
  | inline {name value : Text} {apply : Text → σ → Except ErrorKind σ} {uses : List (Use σ)}
      {args words : List Text}
      (named : (r.find? name).map CommandOption.action = some (.value apply))
      (rest : Accounted r uses args words) :
      Accounted r (.valued name value apply :: uses) ((name ++ equals :: value) :: args) words
  /-- An option, and its value in an argument of its own. -/
  | separate {name value : Text} {apply : Text → σ → Except ErrorKind σ} {uses : List (Use σ)}
      {args words : List Text}
      (named : (r.find? name).map CommandOption.action = some (.value apply))
      (rest : Accounted r uses args words) :
      Accounted r (.valued name value apply :: uses) (name :: value :: args) words

section

variable {r : Registry σ} {word arg name value : Text} {apply : Text → σ → Except ErrorKind σ}
variable {uses : List (Use σ)} {args words : List Text}

theorem accounted_positional_iff (unnamed : r.find? word = none) :
    Accounted r (.positional word :: uses) (arg :: args) (word :: words) ↔
      arg = word ∧ Accounted r uses args words := by
  constructor
  · intro accounted
    cases accounted with
    | positional _ rest => exact ⟨rfl, rest⟩
  · rintro ⟨rfl, rest⟩
    exact .positional unnamed rest

theorem accounted_valued_iff
    (named : (r.find? name).map CommandOption.action = some (.value apply)) :
    Accounted r (.valued name value apply :: uses) (arg :: args) words ↔
      (arg = name ++ equals :: value ∧ Accounted r uses args words) ∨
        ∃ rest, arg = name ∧ args = value :: rest ∧ Accounted r uses rest words := by
  constructor
  · intro accounted
    cases accounted with
    | inline _ rest => exact .inl ⟨rfl, rest⟩
    | separate _ rest => exact .inr ⟨_, rfl, rfl, rest⟩
  · rintro (⟨rfl, rest⟩ | ⟨rest, rfl, rfl, rest'⟩)
    · exact .inline named rest
    · exact .separate named rest'

/-- What is cut is more than its first half. -/
theorem append_equals_ne (front back : Text) : front ++ equals :: back ≠ front := by
  rw [Ne, List.append_right_eq_self]
  exact List.cons_ne_nil _ _

theorem accounted_inline_iff
    (named : (r.find? name).map CommandOption.action = some (.value apply)) :
    Accounted r (.valued name value apply :: uses) ((name ++ equals :: value) :: args) words ↔
      Accounted r uses args words := by
  rw [accounted_valued_iff named, and_iff_right rfl, or_iff_left]
  rintro ⟨_, same, -⟩
  exact append_equals_ne name value same

theorem accounted_separate_iff (uncut : equals ∉ name)
    (named : (r.find? name).map CommandOption.action = some (.value apply)) :
    Accounted r (.valued name value apply :: uses) (name :: arg :: args) words ↔
      arg = value ∧ Accounted r uses args words := by
  rw [accounted_valued_iff named]
  constructor
  · rintro (⟨same, -⟩ | ⟨_, -, same, rest⟩)
    · rw [same] at uncut
      exact absurd (List.mem_append_right _ List.mem_cons_self) uncut
    · cases same
      exact ⟨rfl, rest⟩
  · rintro ⟨rfl, rest⟩
    exact .inr ⟨args, rfl, rfl, rest⟩

end

namespace Registry

variable (r : Registry σ)

/-- Nothing is cut but an option from its value. -/
def CutsOptionsOnly : List Text → Prop
  | [] => True
  | arg :: rest =>
    match split? arg with
    | some (name, _) => (r.find? name).isSome = true ∧ CutsOptionsOnly rest
    | none =>
      if (r.find? arg).isSome = true then
        match rest with
        | [] => True
        | value :: rest' => split? value = none ∧ CutsOptionsOnly rest'
      else CutsOptionsOnly rest

/-- What the words from a place on are taken for. -/
def usesFrom (c : Cursor) : List (Use σ) := (r.turnsFrom c).map Turn.use

/-- What the words of a list of arguments are taken for. -/
def uses (args : List Text) : List (Use σ) := r.usesFrom (.start args)

theorem usesFrom_of_none {c : Cursor} (h : c.next? = none) : r.usesFrom c = [] := by
  rw [usesFrom, r.turnsFrom_of_none h, List.map_nil]

theorem usesFrom_of_some {c rest : Cursor} {t : Turn σ} (h : r.turn? c = some (t, rest)) :
    r.usesFrom c = t.use :: r.usesFrom rest := by
  rw [usesFrom, r.turnsFrom_of_some h, List.map_cons, usesFrom]

end Registry

/-- A turn reports an error or a call for help unless the word is understood. What was reported
before stays. -/
theorem Turn.plain_of_apply {t : Turn σ} {p : Parsed σ} (quiet : (t.apply p).errors = [])
    (unasked : (t.apply p).wantsHelp = false) :
    p.errors = [] ∧ p.wantsHelp = false ∧ t.use.isPlain = true := by
  have reported (e : ArgumentError) : p.errors ++ [e] ≠ [] :=
    List.append_ne_nil_of_right_ne_nil _ (List.cons_ne_nil _ _)
  obtain ⟨use, inputs⟩ := t
  cases use with
  | help word => cases unasked
  | flag name apply => exact ⟨quiet, unasked, rfl⟩
  | valued name value apply =>
      rw [Turn.apply] at quiet unasked
      dsimp only at quiet unasked
      split at quiet
      · next accepted =>
        rw [accepted] at unasked
        exact ⟨quiet, unasked, rfl⟩
      · exact absurd quiet (reported _)
  | unvalued name => exact absurd quiet (reported _)
  | unknown word => exact absurd quiet (reported _)
  | positional word => exact ⟨quiet, unasked, rfl⟩

theorem Turn.positional_apply (t : Turn σ) (p : Parsed σ) :
    (t.apply p).positional = p.positional ++ t.use.positional?.toList := by
  obtain ⟨use, inputs⟩ := t
  cases use with
  | valued name value apply =>
      rw [Turn.apply]
      dsimp only
      split <;> exact (List.append_nil _).symm
  | positional word => rfl
  | _ => exact (List.append_nil _).symm

/-- Without an error and a call for help every word is understood. -/
theorem plain_of_foldl {ts : List (Turn σ)} {p : Parsed σ}
    (quiet : (ts.foldl (fun p t => t.apply p) p).errors = [])
    (unasked : (ts.foldl (fun p t => t.apply p) p).wantsHelp = false) :
    p.errors = [] ∧ p.wantsHelp = false ∧ ∀ t ∈ ts, t.use.isPlain = true := by
  induction ts generalizing p with
  | nil => exact ⟨quiet, unasked, List.forall_mem_nil _⟩
  | cons t rest ih =>
      obtain ⟨quiet', unasked', later⟩ := ih quiet unasked
      obtain ⟨quiet'', unasked'', plain⟩ := Turn.plain_of_apply quiet' unasked'
      exact ⟨quiet'', unasked'', List.forall_mem_cons.mpr ⟨plain, later⟩⟩

theorem positional_foldl (ts : List (Turn σ)) (p : Parsed σ) :
    (ts.foldl (fun p t => t.apply p) p).positional =
      p.positional ++ Use.words (ts.map Turn.use) := by
  induction ts generalizing p with
  | nil => exact (List.append_nil _).symm
  | cons t rest ih =>
      rw [List.foldl_cons, ih, Turn.positional_apply, List.append_assoc, List.map_cons,
        Use.words_cons]

namespace Registry.Proper

variable {r : Registry σ} (proper : r.Proper)
include proper

/-- A word that is understood is an option with a value behind it, or no option. -/
theorem plain_cases {c rest : Cursor} {word : Text} (next : c.next? = some (word, rest))
    (plain : ∀ use ∈ r.usesFrom c, use.isPlain = true) :
    (∃ apply value rest', (r.find? word).map CommandOption.action = some (.value apply) ∧
        rest.next? = some (value, rest') ∧
        r.usesFrom c = .valued word value apply :: r.usesFrom rest') ∨
      (r.find? word = none ∧ r.usesFrom c = .positional word :: r.usesFrom rest) := by
  by_cases asked : word ∈ helpNames
  · rw [r.usesFrom_of_some (turn?_help next asked)] at plain
    cases plain _ List.mem_cons_self
  cases named : r.find? word with
  | some o =>
      obtain ⟨apply, named', -⟩ := proper.exists_named named
      cases next' : rest.next? with
      | none =>
          rw [r.usesFrom_of_some (turn?_unvalued next asked named' next')] at plain
          cases plain _ List.mem_cons_self
      | some pair =>
          obtain ⟨value, rest'⟩ := pair
          refine .inl ⟨apply, value, rest', ?_, rfl, ?_⟩
          · rw [← named, named']
          · rw [r.usesFrom_of_some (turn?_valued next asked named' next')]
  | none =>
      by_cases dashed : looksLikeOption word = true
      · rw [r.usesFrom_of_some (turn?_unknown next asked named dashed)] at plain
        cases plain _ List.mem_cons_self
      · refine .inr ⟨rfl, ?_⟩
        rw [r.usesFrom_of_some (turn?_positional next asked named dashed)]

/-- Arguments that are understood are accounted for exactly if nothing is cut but an option from its
value. -/
theorem accounted_iff (args : List Text) (plain : ∀ use ∈ r.uses args, use.isPlain = true) :
    Accounted r (r.uses args) args (Use.words (r.uses args)) ↔ r.CutsOptionsOnly args := by
  -- A turn and a step of the condition take the same arguments, as long as the condition holds.
  fun_induction CutsOptionsOnly r args with
  | case1 =>
      rw [uses, r.usesFrom_of_none Cursor.next?_nil]
      exact iff_of_true .nil trivial
  | case2 arg rest name value parts ih =>
      obtain ⟨-, -, rfl⟩ := split?_eq_some_iff.mp parts
      obtain ⟨apply, value', rest', named, next, same⟩ | ⟨unnamed, same⟩ :=
        proper.plain_cases (Cursor.next?_split parts rest) plain
      · cases next
        rw [uses, same] at plain ⊢
        obtain ⟨-, later⟩ := List.forall_mem_cons.mp plain
        have listed : (r.find? name).isSome = true := by
          rw [← Option.isSome_map, named]
          rfl
        rw [Use.words_valued, accounted_inline_iff named, and_iff_right listed]
        exact ih later
      · -- The first half becomes a positional argument.
        rw [uses, same, Use.words_positional, accounted_positional_iff unnamed, unnamed]
        apply iff_of_false
        · intro ⟨same', _⟩
          exact append_equals_ne name value same'
        · intro ⟨listed, _⟩
          cases listed
  | case3 name whole listed =>
      obtain ⟨apply, value, rest', named, next, same⟩ | ⟨unnamed, same⟩ :=
        proper.plain_cases (Cursor.next?_whole whole []) plain
      · cases next
      · rw [unnamed] at listed
        cases listed
  | case4 name whole listed value rest ih =>
      obtain ⟨apply, value', rest', named, next, same⟩ | ⟨unnamed, same⟩ :=
        proper.plain_cases (Cursor.next?_whole whole (value :: rest)) plain
      · obtain ⟨o, named'⟩ := Option.isSome_iff_exists.mp listed
        rw [uses, same] at plain ⊢
        obtain ⟨-, later⟩ := List.forall_mem_cons.mp plain
        rw [Use.words_valued, accounted_separate_iff (proper.uncut named') named]
        cases parts : split? value with
        | none =>
            rw [Cursor.next?_whole parts rest] at next
            cases next
            rw [and_iff_right rfl, and_iff_right rfl]
            exact ih later
        | some halves =>
            -- The option is given the first half only.
            rw [Cursor.next?_split parts rest] at next
            cases next
            obtain ⟨-, -, rfl⟩ := split?_eq_some_iff.mp parts
            apply iff_of_false
            · intro ⟨same', _⟩
              exact append_equals_ne _ _ same'
            · intro ⟨absent, _⟩
              cases absent
      · rw [unnamed] at listed
        cases listed
  | case5 word rest whole unlisted ih =>
      obtain ⟨apply, value, rest', named, next, same⟩ | ⟨unnamed, same⟩ :=
        proper.plain_cases (Cursor.next?_whole whole rest) plain
      · rw [← Option.isSome_map, named] at unlisted
        exact absurd rfl unlisted
      · rw [uses, same] at plain ⊢
        obtain ⟨-, later⟩ := List.forall_mem_cons.mp plain
        rw [Use.words_positional, accounted_positional_iff unnamed, and_iff_right rfl]
        exact ih later

end Registry.Proper

end CommandLine

namespace Configuration

open CommandLine

/-- What becomes of arguments is what their turns make of them. Where there is no error and no call
for help, every argument is read once, as a whole, exactly if nothing is cut but an option from its
value. -/
theorem parse_accounted_iff {usage : Text} {files : FileTree} {args : List Text}
    {environment : Text → Option Text}
    (quiet : ((registry usage files).parse args environment (default files)).errors = [])
    (unasked : ((registry usage files).parse args environment (default files)).wantsHelp = false) :
    (registry usage files).parseFrom (.start args) ⟨default files, [], [], false⟩ =
        ((registry usage files).turns args).foldl (fun p t => t.apply p)
          ⟨default files, [], [], false⟩ ∧
      (Accounted (registry usage files) ((registry usage files).uses args) args
          ((registry usage files).parse args environment (default files)).positional ↔
        (registry usage files).CutsOptionsOnly args) := by
  have folded := (registry usage files).parseFrom_eq_foldl (.start args)
    ⟨default files, [], [], false⟩
  have words : ((registry usage files).parse args environment (default files)).positional =
      Use.words ((registry usage files).uses args) := by
    rw [Registry.parse, folded]
    exact positional_foldl _ _
  rw [Registry.parse, folded] at quiet unasked
  obtain ⟨-, -, understood⟩ := plain_of_foldl quiet unasked
  refine ⟨folded, ?_⟩
  rw [words]
  apply (registry_proper usage files).accounted_iff
  exact List.forall_mem_map.mpr understood

/-- A working directory where one name is the first half of another. -/
def halvesTree : FileTree := ⟨[([utf8 "-x"], .directory), ([utf8 "-x=y"], .directory)], []⟩

theorem parse_accounted_halves :
    ((registry [] halvesTree).parse [utf8 "-l", utf8 "-x=y"] (fun _ => none)
        (default halvesTree)).errors = [] ∧
      ((registry [] halvesTree).parse [utf8 "-l", utf8 "-x=y"] (fun _ => none)
        (default halvesTree)).wantsHelp = false ∧
      ¬ Accounted (registry [] halvesTree) ((registry [] halvesTree).uses [utf8 "-l", utf8 "-x=y"])
        [utf8 "-l", utf8 "-x=y"]
        ((registry [] halvesTree).parse [utf8 "-l", utf8 "-x=y"] (fun _ => none)
          (default halvesTree)).positional := by
  have quiet : ((registry [] halvesTree).parse [utf8 "-l", utf8 "-x=y"] (fun _ => none)
      (default halvesTree)).errors = [] := by decide +kernel
  have unasked : ((registry [] halvesTree).parse [utf8 "-l", utf8 "-x=y"] (fun _ => none)
      (default halvesTree)).wantsHelp = false := by decide +kernel
  refine ⟨quiet, unasked, ?_⟩
  rw [(parse_accounted_iff quiet unasked).2]
  intro cuts
  have whole : split? (utf8 "-x=y") = none := cuts.1
  exact absurd whole (by decide)

end Configuration

end GoInspect
