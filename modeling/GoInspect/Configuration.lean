import GoInspect.CommandLine
import GoInspect.FileTree
import GoInspect.Settings

/-!
# Configuration

What a user chooses on the command line and in the environment: the settings of the inspection, the
channels whose events are logged, and the directory the logs are kept in.
-/

namespace GoInspect

open CommandLine

structure Configuration where
  logDirectory : Text
  channels : List Channel
  settings : Settings

def Channel.info : Channel → Text
  | core => utf8 "Messages that don't have a intuitive log channel can be logged here."
  | golang =>
    utf8 "Log messages involving function table (pclntab) and module data / type section parsing"
  | inference => utf8 "Log messages involving guess caches, stop hooks and value extraction"
  | unwind => utf8 "Log messages that involve walking the stack using stack delta tables"
  | warning => utf8 "Unexpected behaviors should be logged to this chanel"

namespace Configuration

def default (files : FileTree) : Configuration := ⟨files.workingPath, [], {}⟩

/-- A choice among named alternatives, in any case of letters. -/
def choice {α σ : Type} [Enumeration α] (apply : α → σ → σ) : Action σ :=
  .value fun t s =>
    match Enumeration.ofNameIgnoringCase? t with
    | some a => .ok (apply a s)
    | none => .error .invalidFormat

def number {α σ : Type} (read : Text → Option α) (apply : α → σ → Except ErrorKind σ) : Action σ :=
  .value fun t s =>
    match read t with
    | some n => apply n s
    | none => .error .invalidFormat

/-- The directory of the logs, which has to be there. -/
def logOption (files : FileTree) : CommandOption Configuration where
  short := utf8 "-l"
  long := utf8 "--log"
  info := utf8 ("The directory where log files should be saved. If that directory doesn't " ++
    "exist, it will not be created for you, and goscry will terminate.")
  action := .value fun t c =>
    if files.contains t then .ok { c with logDirectory := t } else .error .directoryMissing

def supportOption : CommandOption Configuration where
  short := utf8 "-s"
  long := utf8 "--support"
  info := utf8 ("Go support level: disable, auto or force. 'force' additionally scans the " ++
    "read-only data of PE images for the function table, which can be slow.")
  action := choice fun support c => { c with settings := { c.settings with support } }

def confidenceOption : CommandOption Configuration where
  short := utf8 "-c"
  long := utf8 "--confidence"
  info := utf8 ("Minimum confidence (low, medium or high) a guessed value needs before it is " ++
    "displayed. Guesses below it are forgotten.")
  action := choice fun confidence c => { c with settings := { c.settings with confidence } }

def depthOption : CommandOption Configuration where
  short := utf8 "-d"
  long := utf8 "--depth"
  info := utf8 "Depth to unpack child objects and child types."
  action := number Text.toUInt32? fun depth c =>
    .ok { c with settings := { c.settings with depth } }

/-- The tables of a map that are read, at least one. -/
def directoryCapOption : CommandOption Configuration where
  short := []
  long := utf8 "--swiss-dir-cap"
  info := utf8 ("Maximum number of tables read from the directory of a Swiss map. Maps with " ++
    "larger directories are read partially and get a lower confidence.")
  action := number Text.toUInt64? fun swissDirectoryCap c =>
    if swissDirectoryCap = 0 then .error .valueOutOfRange
    else .ok { c with settings := { c.settings with swissDirectoryCap } }

def overflowOption : CommandOption Configuration where
  short := []
  long := utf8 "--overflow-depth"
  info := utf8 "Maximum number of overflow buckets followed from each bucket of a legacy map."
  action := number Text.toUInt32? fun overflowDepth c =>
    .ok { c with settings := { c.settings with overflowDepth } }

/-- What opens all channels. -/
def allChannels : Text := utf8 "all"

/-- The channels that a list of names stands for. Unknown names are passed over. -/
def channelsOf (names : Text) : List Channel :=
  let names := Text.fields (Text.ascii ',') names
  if names.contains allChannels then Enumeration.all
  else names.filterMap fun name => Enumeration.ofName? (Text.trim name)

def logVariable : Variable Configuration where
  name := utf8 "LOG"
  info := utf8 "Configure what logging channels should be opened, separated by ',' or 'all'\n" ++
    (Enumeration.all : List Channel).flatMap fun c =>
      utf8 "\n - " ++ Enumeration.name c ++ utf8 ": " ++ c.info
  apply value c := { c with channels := channelsOf value }

/-- The options of the program that is used in a given way. -/
def registry (usage : Text) (files : FileTree) : Registry Configuration where
  usage
  options := [logOption files, supportOption, confidenceOption, depthOption, directoryCapOption,
    overflowOption]
  environment := [logVariable]

end Configuration

end GoInspect
