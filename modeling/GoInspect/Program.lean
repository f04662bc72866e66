import GoInspect.CommandLine.Help
import GoInspect.Elf
import GoInspect.LogFile
import GoInspect.Session

/-!
# The program

A run of the program answers one question about the binary in an ELF file. It depends on nothing but
the arguments, the environment and the files, and leaves an exit status, what it prints and its
logs.
-/

namespace GoInspect

open CommandLine

inductive Command where
  | listFunctions
  | findFunction (target : Text)
  | listTypes
  | describeType (target : Text)
  | unpack (object type : Text)
  | annotate (value : Text)
  deriving DecidableEq, Repr

/-- The question that arguments ask. -/
def Command.ofWords? (name : Text) (args : List Text) : Option Command :=
  match args with
  | [] =>
    if name = utf8 "funcs" then some .listFunctions
    else if name = utf8 "types" then some .listTypes
    else none
  | [target] =>
    if name = utf8 "func" then some (.findFunction target)
    else if name = utf8 "type" then some (.describeType target)
    else if name = utf8 "annotate" then some (.annotate target)
    else none
  | [object, type] => if name = utf8 "unpack" then some (.unpack object type) else none
  | _ => none

/-- What a user sees of a run. -/
structure Reply where
  succeeded : Bool
  output : Text := []
  /-- What is printed about errors. -/
  errors : Text := []
  deriving DecidableEq, Repr

namespace Reply

def printed (t : Text) : Reply := ⟨true, t, []⟩

def failed (t : Text) : Reply := ⟨false, [], line (utf8 "error: " ++ t)⟩

/-- The printed answer to a question, or why there is none. -/
def ofAnswer {α : Type} (print : α → Text) : Except QueryError α → Reply
  | .ok a => printed (print a)
  | .error e => failed e.message

def notAnAddress (t : Text) : Reply := failed (utf8 "'" ++ t ++ utf8 "' is not an address")

end Reply

namespace Program

def address (n : UInt64) : Text := Text.hex n.toNat

def functionList (fs : List FunctionInfo) : Text :=
  line (utf8 "LOAD_ADDRESS (FILE_ADDRESS) - NAME") ++ fs.flatMap fun f =>
    line (address f.entry ++ utf8 " (" ++ address f.fileEntry ++ utf8 ") - " ++ f.name)

/-- The end of a line about a function. -/
def fileAddress (f : FunctionInfo) : Text :=
  utf8 " (file address = " ++ address f.fileEntry ++ utf8 ")"

def functionAround (f : FunctionInfo) : Text :=
  line (address f.entry ++ utf8 " - " ++ f.name ++ utf8 "+" ++ Text.decimal f.offset.toNat ++
    fileAddress f)

def functionsNamed (fs : List FunctionInfo) : Text :=
  fs.flatMap fun f => line (address f.entry ++ utf8 " - " ++ f.name ++ fileAddress f)

def typeText (t : TypeInfo) : Text := t.name ++ utf8 " = " ++ t.rendered

def typeList (ts : List TypeInfo) : Text :=
  line (utf8 "TYPE_POINTER - SHORT_NAME = DECONSTRUCTED_TYPE") ++ ts.flatMap fun t =>
    line (address (t.address.getD 0) ++ utf8 " - " ++ typeText t)

def typeDescription (t : TypeInfo) : Text :=
  line ((match t.address with
    | some a => address a ++ utf8 " - "
    | none => []) ++ typeText t) ++
    line (utf8 "Size in bytes: " ++ address t.size)

def answer (w : Surroundings) (depth : UInt32) : Command → Session.Asking Reply
  | .listFunctions => do
    let answer ← Session.listFunctions w
    pure (Reply.ofAnswer functionList answer)
  | .findFunction target =>
    match Text.toUInt64? target with
    | some a => do
      let answer ← Session.findFunction w a
      pure (Reply.ofAnswer functionAround answer)
    | none => do
      let answer ← Session.findFunctionsNamed w target
      pure (Reply.ofAnswer functionsNamed answer)
  | .listTypes => do
    let answer ← Session.listTypes w depth
    pure (Reply.ofAnswer typeList answer)
  | .describeType target => do
    let answer ←
      match Text.toUInt64? target with
      | some a => Session.getTypeAt w a depth
      | none => Session.getTypeNamed w target depth
    pure (Reply.ofAnswer typeDescription answer)
  | .unpack object type =>
    match Text.toUInt64? object with
    | none => pure (Reply.notAnAddress object)
    | some o => do
      let answer ←
        match Text.toUInt64? type with
        | some a => Session.unpackAt w o a depth
        | none => Session.unpackNamed w o type depth
      pure (Reply.ofAnswer line answer)
  | .annotate value =>
    match Text.toUInt64? value with
    | none => pure (Reply.notAnAddress value)
    | some v => do
      let remark ← Session.annotate w v none
      pure (Reply.printed (line (address v ++ remark)))

def usage : Text :=
  utf8 ("goscry [options] <elf> <command> [args]\n\n" ++
    "Commands:\n" ++
    "  funcs                  list every function\n" ++
    "  func <addr|name>       function containing an address, or functions with a name\n" ++
    "  types                  list every type\n" ++
    "  type <addr|name>       describe the type at an address, or a type in Go syntax\n" ++
    "  unpack <addr> <type>   read the object at addr as a type (address or Go syntax)\n" ++
    "  annotate <addr>        what is known about a value")

def inspect (registry : Registry Configuration) (settings : Settings) (e : ElfFile)
    (name : Text) (args : List Text) : Logged Reply :=
  match e.architecture? with
  | none => pure (Reply.failed (utf8 "unsupported architecture"))
  | some architecture =>
    match Command.ofWords? name args with
    | none =>
      let error := utf8 "unknown command or wrong number of arguments: " ++ name
      pure { Reply.failed error with output := registry.help }
    | some command => do
      let w : Surroundings := ⟨e.toImage, e.toMemory, architecture⟩
      let (reply, _) ← (answer w settings.depth command).run (Session.start settings)
      pure reply

/-- The reply to positional arguments: a file, a command and its arguments. -/
def reply (registry : Registry Configuration) (settings : Settings) (files : FileTree) :
    List Text → Logged Reply
  | path :: name :: args => do
    match ← ElfFile.open files path with
    | none => pure (Reply.failed (utf8 "could not load '" ++ path ++ utf8 "' as an ELF file"))
    | some e => inspect registry settings e name args
  | _ => pure ⟨false, registry.help, []⟩

/-- What a run starts from. -/
structure Invocation where
  /-- The arguments, without the name of the program. -/
  args : List Text
  environment : Text → Option Text
  files : FileTree

/-- What a run leaves. -/
structure Outcome where
  reply : Reply
  logDirectory : Text
  logs : List LogFile

def Outcome.status (o : Outcome) : UInt8 := if o.reply.succeeded then 0 else 1

/-- The events before any file is opened. -/
def startEvents (args : List Text) (c : Configuration) : List Event :=
  .channelsSet c.channels.length c.logDirectory :: args.map .argument

/-- A run of the program. Logs are written from the moment the arguments are understood, so that a
question about the file of a log finds what is in it by then. -/
def run (i : Invocation) : Outcome :=
  let registry := Configuration.registry usage i.files
  let p := registry.parse i.args i.environment (Configuration.default i.files)
  let c := p.configuration
  if p.wantsHelp then ⟨.printed registry.help, c.logDirectory, []⟩
  else if !p.errors.isEmpty then
    ⟨⟨false, [], p.errors.flatMap fun e => line e.message⟩, c.logDirectory, []⟩
  else
    let start := startEvents i.args c
    let files := LogFile.writeAll i.files c.logDirectory (LogFile.all c.channels start)
    let found := reply registry c.settings files p.positional
    ⟨found.value, c.logDirectory, LogFile.all c.channels (start ++ found.events)⟩

def Outcome.filesAfter (o : Outcome) (files : FileTree) : FileTree :=
  LogFile.writeAll files o.logDirectory o.logs

end Program

end GoInspect
