import GoInspect.Remark
import GoInspect.GoType.Syntax
import GoInspect.StackWalk

/-!
# Sessions

The questions that can be asked about one binary. It is analysed at the first question and again on
request; guesses are collected over the stops of the program and forgotten with the analysis. What
surrounds a session may change between questions, and is handed in with each of them.
-/

namespace GoInspect

inductive QueryErrorKind where
  | disabled | notGoBinary | noTypeInformation | notFound | parseFailed | impossibleData
  | unavailable
  deriving DecidableEq, Repr

instance : Enumeration QueryErrorKind where
  all := [.disabled, .notGoBinary, .noTypeInformation, .notFound, .parseFailed, .impossibleData,
    .unavailable]
  name
    | .disabled => utf8 "Disabled"
    | .notGoBinary => utf8 "NotGoBinary"
    | .noTypeInformation => utf8 "NoTypeInformation"
    | .notFound => utf8 "NotFound"
    | .parseFailed => utf8 "ParseFailed"
    | .impossibleData => utf8 "ImpossibleData"
    | .unavailable => utf8 "Unavailable"

/-- Why a question has no answer. -/
inductive QueryError where
  | disabled
  | notGo
  | noTypes
  | noFunctionAt (address : UInt64)
  | noFunctionNamed (name : Text)
  | noTypeAt (address : UInt64)
  | typeNotParsed (text : Text)
  | impossibleData
  | tracebackFailed
  deriving DecidableEq, Repr

namespace QueryError

def kind : QueryError → QueryErrorKind
  | disabled => .disabled
  | notGo => .notGoBinary
  | noTypes => .noTypeInformation
  | noFunctionAt _ | noFunctionNamed _ | noTypeAt _ => .notFound
  | typeNotParsed _ => .parseFailed
  | impossibleData => .impossibleData
  | tracebackFailed => .unavailable

def message : QueryError → Text
  | disabled => utf8 "Go support is disabled."
  | notGo => utf8 "The binary does not appear to be a Go binary."
  | noTypes => utf8 "No type information available in this Go binary."
  | noFunctionAt address =>
    utf8 "Could not find function containing address " ++ Text.hex address.toNat
  | noFunctionNamed name => utf8 "Could not find function called '" ++ name ++ utf8 "'"
  | noTypeAt address =>
    utf8 "Could not find type information struct at address " ++ Text.hex address.toNat
  | typeNotParsed text => utf8 "Could not parse type '" ++ text ++ utf8 "'"
  | impossibleData =>
    utf8 "Couldn't unpack from that address (impossible data or non-existent memory)."
  | tracebackFailed => utf8 "Go traceback failed."

end QueryError

structure FunctionInfo where
  /-- The entry in the running program. -/
  entry : UInt64
  /-- The entry as the binary stores it. -/
  fileEntry : UInt64
  name : Text
  /-- How far the address asked about lies behind the entry, zero where none was. -/
  offset : UInt64
  deriving DecidableEq, Repr

structure TypeInfo where
  name : Text
  rendered : Text
  size : UInt64
  /-- The address of the type, unless it was built. -/
  address : Option UInt64
  deriving DecidableEq, Repr

structure FrameInfo where
  /-- Where the function of the frame stopped. -/
  pc : UInt64
  base : UInt64
  name : Text
  deriving DecidableEq, Repr

/-- What surrounds a session. -/
structure Surroundings where
  image : Image
  memory : Memory
  architecture : Architecture

/-- What a session keeps between questions. -/
structure Session where
  /-- What the user chose; an analysis may lower the level of support. -/
  settings : Settings
  /-- The outcome of the last analysis, if there was one. -/
  outcome : Option (Option Analysis)
  guesses : Guesses

namespace Session

def start (settings : Settings) : Session := ⟨settings, none, .empty⟩

def analysis? (s : Session) : Option Analysis := s.outcome.bind id

/-- What may change what the session keeps, and leaves events behind. -/
abbrev Asking := StateT Session Logged

variable (w : Surroundings)

def analyse : Asking Unit := fun s =>
  let found := Analysis.run w.image w.memory w.architecture.pointerWidth s.settings.support
  let (analysis, level) := found.value
  ⟨((), { s with settings := { s.settings with support := level }, outcome := some analysis }),
    found.events⟩

/-- The current analysis, after a first one if there was none. -/
def acquire : Asking (Except QueryError Analysis) := do
  if (← get).settings.support = .disable then pure (.error .disabled)
  else
    if (← get).outcome.isNone then analyse w
    match (← get).analysis? with
    | none => pure (.error .notGo)
    | some a => pure (.ok a)

/-- An answer that follows from the analysis. -/
def ask {α : Type} (answer : Analysis → Except QueryError α) : Asking (Except QueryError α) := do
  match ← acquire w with
  | .error e => pure (.error e)
  | .ok a => pure (answer a)

/-- An answer that follows from the analysis and its types. -/
def askTypes {α : Type} (answer : Analysis → TypeGraph → Except QueryError α) :
    Asking (Except QueryError α) :=
  ask w fun a =>
    match a.types with
    | none => .error .noTypes
    | some g => answer a g

def describeFunction (f : FunctionEntry) (offset : UInt64) : FunctionInfo :=
  ⟨f.entry, f.fileEntry, f.name, offset⟩

def describeType (g : TypeGraph) (t : GoType) (depth : UInt32) (address : Option UInt64) :
    TypeInfo :=
  ⟨t.name, t.render g depth, t.size, address⟩

def findFunction (address : UInt64) : Asking (Except QueryError FunctionInfo) :=
  ask w fun a =>
    match a.functions.find? address with
    | none => .error (.noFunctionAt address)
    | some (f, offset) => .ok (describeFunction f offset)

def findFunctionsNamed (name : Text) : Asking (Except QueryError (List FunctionInfo)) :=
  ask w fun a =>
    match a.functions.named name with
    | [] => .error (.noFunctionNamed name)
    | found => .ok (found.map (describeFunction · 0))

def listFunctions : Asking (Except QueryError (List FunctionInfo)) :=
  ask w fun a => .ok (a.functions.functions.toList.map (describeFunction · 0))

def typeAt? (g : TypeGraph) (address : UInt64) : Except QueryError GoType :=
  match g.find? address with
  | none => .error (.noTypeAt address)
  | some t => .ok t

def typeNamed? (a : Analysis) (g : TypeGraph) (text : Text) :
    Except QueryError (TypeHandle GoType × GoType) :=
  let handle := TypeSyntax.parse g a.functions.version a.pointerWidth text
  match handle, handle.bind g.lookup? with
  | some handle, some t => .ok (handle, t)
  | _, _ => .error (.typeNotParsed text)

/-- Where the node is that a handle stands for, if it stands for one. -/
def handleAddress? : TypeHandle GoType → Option UInt64
  | .node address => some address
  | .built _ => none

/-- The address of a type, unless it was built. -/
def addressOf? (g : TypeGraph) (handle : TypeHandle GoType) : Option UInt64 :=
  ((handleAddress? handle).bind g.node?).bind g.addressOf?

def getTypeAt (address : UInt64) (depth : UInt32) : Asking (Except QueryError TypeInfo) :=
  askTypes w fun _ g => (typeAt? g address).map (describeType g · depth (some address))

def getTypeNamed (text : Text) (depth : UInt32) : Asking (Except QueryError TypeInfo) :=
  askTypes w fun a g => (typeNamed? a g text).map fun (handle, t) =>
    describeType g t depth (addressOf? g handle)

def listTypes (depth : UInt32) : Asking (Except QueryError (List TypeInfo)) :=
  askTypes w fun _ g =>
    .ok (g.toList.map fun (address, t) => describeType g t depth (some address))

/-- The text of the object of a type at an address. Memory that is not there is refused, also for
objects without any bytes. -/
def unpackAs (a : Analysis) (g : TypeGraph) (t : GoType) (object : UInt64) (depth : UInt32) :
    Asking (Except QueryError Text) := do
  match w.memory.readBytes object 1 with
  | .error _ => pure (.error .impossibleData)
  | .ok probe =>
    if probe.isEmpty then pure (.error .impossibleData)
    else
      let value ← (Extract.value ⟨w.memory, a.pointerWidth, g, (← get).settings⟩ t object depth :
        Logged Value)
      if value.isBad then pure (.error .impossibleData) else pure (.ok value.render)

/-- The text of the object at an address, given how its type is found. -/
def unpackBy (type : Analysis → TypeGraph → Except QueryError GoType) (object : UInt64)
    (depth : UInt32) : Asking (Except QueryError Text) := do
  match ← askTypes w fun a g => (type a g).map fun t => (a, g, t) with
  | .error e => pure (.error e)
  | .ok (a, g, t) => unpackAs w a g t object depth

/-- The text of the object at an address as the type at another. -/
def unpackAt (object type : UInt64) (depth : UInt32) : Asking (Except QueryError Text) :=
  unpackBy w (fun _ g => typeAt? g type) object depth

/-- The text of the object at an address as the type that a text stands for. -/
def unpackNamed (object : UInt64) (type : Text) (depth : UInt32) :
    Asking (Except QueryError Text) :=
  unpackBy w (fun a g => (typeNamed? a g type).map Prod.snd) object depth

/-- What is told about a frame, if its function has a name. -/
def describeFrame? (t : FunctionTable) (f : StackFrame) : Option FrameInfo :=
  match t.find? f.pc with
  | none => none
  | some (function, _) =>
    if function.name.isEmpty then none else some ⟨f.pc, f.base, function.name⟩

/-- The frames of a stopped program from the innermost outwards, at most `limit` of them. -/
def backtrace (p : Stop) (limit : UInt32) : Asking (Except QueryError (List FrameInfo)) := do
  match ← acquire w with
  | .error e => pure (.error e)
  | .ok a =>
    match p.pc, p.sp with
    | some pc, some sp =>
      let frames ← (StackWalk.frames a.functions w.memory w.architecture.savedPcWidth pc sp
        limit.toNat : Logged (List StackFrame))
      match frames.filterMap (describeFrame? a.functions) with
      | [] => pure (.error .tracebackFailed)
      | told => pure (.ok told)
    | _, _ => pure (.error .tracebackFailed)

/-- Forgets the guesses and analyses the binary again, unless support is disabled. -/
def reanalyse : Asking Unit := do
  if (← get).settings.support ≠ .disable then
    modify fun s => { s with guesses := s.guesses.clear }
    analyse w
    let s ← get
    (Logged.event (.reanalysed s.analysis?.isSome) : Logged Unit)

/-- The remark on a value, empty where nothing is known. -/
def annotate (value : UInt64) (containing : Option UInt64) : Asking Text := do
  match ← acquire w with
  | .error _ => pure []
  | .ok a =>
    let s ← get
    let (text, guesses) ←
      ((Remark.annotate ⟨a, w.memory, s.settings⟩ value containing).run s.guesses :
        Logged (Text × Guesses))
    set { s with guesses }
    pure text

def onStop (p : Stop) : Asking Unit := do
  match ← acquire w with
  | .error _ => pure ()
  | .ok a =>
    let s ← get
    let guesses ← (Inference.onStop ⟨a.functions, a.types, w.architecture⟩ p s.guesses :
      Logged Guesses)
    set { s with guesses }

end Session

end GoInspect
