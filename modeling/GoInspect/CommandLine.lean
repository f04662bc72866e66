import GoInspect.Enumeration

/-!
# Command lines

Arguments are options, values of options, or positional arguments. The value of an option is the
next argument, or stands behind an equals sign in the option's own. Each option says how its value
changes a configuration, and the rest of the arguments is read whatever becomes of one of them.
-/

namespace GoInspect

namespace CommandLine

inductive ErrorKind where
  | missingValue | invalidFormat | unrecognized | directoryMissing | valueOutOfRange
  deriving DecidableEq, Repr

instance : Enumeration ErrorKind where
  all := [.missingValue, .invalidFormat, .unrecognized, .directoryMissing, .valueOutOfRange]
  name
    | .missingValue => utf8 "MissingArgValue"
    | .invalidFormat => utf8 "InvalidFormat"
    | .unrecognized => utf8 "UnrecognizedArgument"
    | .directoryMissing => utf8 "DirectoryDoesNotExist"
    | .valueOutOfRange => utf8 "ValueOutOfRange"

def ErrorKind.message : ErrorKind → Text
  | missingValue => utf8 "Option is missing its value."
  | invalidFormat => utf8 "Invalid format of argument."
  | unrecognized => utf8 "Argument is not a recognized option."
  | directoryMissing => utf8 "Directory does not exist"
  | valueOutOfRange => utf8 "Value is outside of the allowed range."

structure ArgumentError where
  kind : ErrorKind
  /-- The arguments, which are an option and its value or one of them. -/
  inputs : List Text
  deriving DecidableEq, Repr

def ArgumentError.message (e : ArgumentError) : Text :=
  utf8 "Parse error: " ++ e.kind.message ++
    if e.inputs.isEmpty then []
    else utf8 " (" ++ Text.join (utf8 " ") e.inputs ++ utf8 ")"

/-- An argument, or the value of a variable, as a program receives it: a zero byte ends it. -/
def received (t : Text) : Text := t.untilZero

/-- A place in a list of arguments, which may lie inside of one. -/
structure Cursor where
  /-- The arguments from this place on. -/
  args : List Text
  /-- What is left of the first of them when its option was read already. -/
  pending : Option Text
  deriving DecidableEq, Repr

def dash : UInt8 := Text.ascii '-'

def equals : UInt8 := Text.ascii '='

namespace Cursor

def start (args : List Text) : Cursor := ⟨args, none⟩

/-- The next word, and the place behind it. An argument that begins with a dash is cut at its first
equals sign. -/
def next? : Cursor → Option (Text × Cursor)
  | ⟨[], _⟩ => none
  | ⟨_ :: rest, some value⟩ => some (value, start rest)
  | ⟨arg :: rest, none⟩ =>
    match if arg.head? = some dash then Text.cut? equals arg else none with
    | some (option, value) => some (option, ⟨arg :: rest, some value⟩)
    | none => some (arg, start rest)

/-- Words that can be left, two for an argument that may still be cut. -/
def weight (c : Cursor) : Nat := 2 * c.args.length - if c.pending.isSome then 1 else 0

theorem weight_next? {c rest : Cursor} {word : Text} (h : c.next? = some (word, rest)) :
    rest.weight < c.weight := by
  match c with
  | ⟨[], _⟩ => simp [next?] at h
  | ⟨_ :: _, some _⟩ =>
    simp only [next?, Option.some.injEq, Prod.mk.injEq] at h
    simp only [← h.2, weight, start, List.length_cons, Option.isSome, Bool.false_eq_true,
      ↓reduceIte]
    omega
  | ⟨_ :: _, none⟩ =>
    simp only [next?] at h
    split at h <;> simp only [Option.some.injEq, Prod.mk.injEq] at h <;>
      simp only [← h.2, weight, start, List.length_cons, Option.isSome, Bool.false_eq_true,
        ↓reduceIte] <;>
      omega

/-- The arguments that were read between two places, at least the first of them. -/
def upTo (c later : Cursor) : List Text := c.args.take (max 1 (c.args.length - later.args.length))

end Cursor

/-- How an option changes a configuration. -/
inductive Action (σ : Type) where
  | flag (apply : σ → σ)
  | value (apply : Text → σ → Except ErrorKind σ)

variable {σ : Type}

def Action.isFlag : Action σ → Bool
  | flag _ => true
  | value _ => false

/-- An option. It has a short name, a long one, or both. -/
structure CommandOption (σ : Type) where
  /-- The short name, empty where there is none. -/
  short : Text
  /-- The long name, empty where there is none. -/
  long : Text
  info : Text
  action : Action σ

def CommandOption.hasName (o : CommandOption σ) (name : Text) : Bool :=
  !name.isEmpty && (o.short == name || o.long == name)

structure Variable (σ : Type) where
  name : Text
  info : Text
  /-- How a value changes the configuration. -/
  apply : Text → σ → σ

structure Registry (σ : Type) where
  usage : Text
  /-- The options in the order they were added. -/
  options : List (CommandOption σ) := []
  environment : List (Variable σ) := []
  /-- Arguments were read already. -/
  isClosed : Bool := false

/-- Why an option cannot be added. -/
inductive RegistryError where
  | late (short long : Text)
  | unnamed
  | taken (name : Text)
  deriving DecidableEq, Repr

def RegistryError.message : RegistryError → Text
  | late short long => utf8 "Option " ++ short ++ long ++ utf8 " added after parsing"
  | unnamed => utf8 "Option without a name"
  | taken name => utf8 "Option " ++ name ++ utf8 " already added"

/-- What becomes of a list of arguments. -/
structure Parsed (σ : Type) where
  configuration : σ
  /-- The errors in the order of the arguments. -/
  errors : List ArgumentError := []
  /-- The arguments that are neither options nor their values. -/
  positional : List Text := []
  wantsHelp : Bool := false

namespace Registry

variable (r : Registry σ)

def find? (name : Text) : Option (CommandOption σ) := r.options.find? (·.hasName name)

def add (o : CommandOption σ) : Except RegistryError (Registry σ) :=
  if r.isClosed then .error (.late o.short o.long)
  else if o.short.isEmpty ∧ o.long.isEmpty then .error .unnamed
  else if (r.find? o.short).isSome then .error (.taken o.short)
  else if (r.find? o.long).isSome then .error (.taken o.long)
  else .ok { r with options := r.options ++ [o] }

def addAll (os : List (CommandOption σ)) : Except RegistryError (Registry σ) := os.foldlM add r

/-- The registry after arguments were read. -/
def close : Registry σ := { r with isClosed := true }

/-- Help is asked for by these words, whatever options there are. -/
def helpNames : List Text := [utf8 "-h", utf8 "--help"]

/-- A word that is no option of the registry was meant to be one. -/
def looksLikeOption (word : Text) : Bool := word.head? == some dash && word.length > 1

/-- The arguments from a place on. -/
def parseFrom (c : Cursor) (p : Parsed σ) : Parsed σ :=
  match _h : c.next? with
  | none => p
  | some (word, rest) =>
    if word ∈ helpNames then parseFrom rest { p with wantsHelp := true }
    else
      match (r.find? word).map CommandOption.action with
      | some (.flag apply) => parseFrom rest { p with configuration := apply p.configuration }
      | some (.value apply) =>
        match _h' : rest.next? with
        | none => { p with errors := p.errors ++ [⟨.missingValue, c.upTo rest⟩] }
        | some (value, rest') =>
          match apply value p.configuration with
          | .ok configuration => parseFrom rest' { p with configuration }
          | .error kind =>
            parseFrom rest' { p with errors := p.errors ++ [⟨kind, c.upTo rest'⟩] }
      | none =>
        if looksLikeOption word then
          parseFrom rest { p with errors := p.errors ++ [⟨.unrecognized, c.upTo rest⟩] }
        else parseFrom rest { p with positional := p.positional ++ [word] }
termination_by c.weight
decreasing_by
  all_goals
    have := Cursor.weight_next? _h
    first
      | exact this
      | exact Nat.lt_trans (Cursor.weight_next? _h') this

/-- The configuration with the variables that the environment sets. -/
def applyEnvironment (environment : Text → Option Text) (configuration : σ) : σ :=
  r.environment.foldl (fun s v =>
    match environment v.name with
    | some value => v.apply value s
    | none => s) configuration

/-- What becomes of arguments and environment, from a configuration that holds the defaults. The
environment comes last. -/
def parse (args : List Text) (environment : Text → Option Text) (defaults : σ) : Parsed σ :=
  let p := r.parseFrom (.start args) ⟨defaults, [], [], false⟩
  { p with configuration := r.applyEnvironment environment p.configuration }

end Registry

end CommandLine

end GoInspect
