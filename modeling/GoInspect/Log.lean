import GoInspect.Double.Decimal
import GoInspect.Memory
import GoInspect.Version

/-!
# Log events

What inspection has to say besides its results. An event is a cause with its facts; the channel it
belongs to and its wording follow from the cause. `Logged` pairs a result with the events on the way
to it, so that a statement about the result can ignore them.
-/

namespace GoInspect

/-- Where an event is written. -/
inductive Channel where
  | core | golang | inference | unwind | warning
  deriving DecidableEq, Repr

instance : Enumeration Channel where
  all := [.core, .golang, .inference, .unwind, .warning]
  name
    | .core => utf8 "core"
    | .golang => utf8 "golang"
    | .inference => utf8 "inference"
    | .unwind => utf8 "unwind"
    | .warning => utf8 "warning"

/-- Something worth a line in a log. -/
inductive Event where
  -- The program and its files
  | argument (text : Text)
  | channelsSet (count : Nat) (directory : Text)
  | openFailed (path reason : Text)
  | mapFailed (path : Text)
  | notElf (path : Text)
  | parsingElf (path : Text)
  | sectionNamesMissing
  | sectionHeaderOutside (index : Nat)
  | sectionContentsOutside (name : Text)
  | sectionsParsed (count machine : Nat)
  | reanalysed (isGo : Bool)
  -- The function table
  | tableStartRejected (pad instructionSize pointerWidth : UInt64)
  | tableMagicUnknown (magic : UInt32)
  | pairsMisaligned (offset : UInt64) (width : UInt32)
  | functionCountTooLarge (count : UInt64)
  | pairOutside (index : Nat)
  | functionInfoOutside (index : Nat)
  | endOfTextOutside
  | versionNarrowed (before after : VersionBound)
  | tableParsed (functions : Nat) (address : UInt64) (magic : UInt32) (version : VersionBound)
  | scanSkipped
  | scanStarted (name : Text)
  | tableRejected (address : UInt64)
  | notGo
  -- The type information
  | layoutUnknown (version : VersionBound)
  | moduleCandidate (name : Text) (offset : Nat)
  | moduleNotFound
  | pcBoundsDiffer (low high : UInt64)
  | typeSectionUnreadable (error : ReadError)
  | typeLinkUnreadable (index : UInt64) (error : ReadError)
  | moduleWithoutTypes (offset : UInt64)
  | typesParsed (count : Nat) (low high : UInt64)
  | typePastSection (address : UInt64)
  | typeUnnamed (address : UInt64)
  | typeKindUnknown (name : Text) (address : UInt64) (kind : Nat)
  | typeDataMalformed (name : Text) (address : UInt64) (kind : Text)
  | childOutside (name : Text) (address : UInt64)
  | typesMissing (address : UInt64)
  -- Values
  | swissTableTooLarge (address groups : UInt64)
  | overflowFieldMissing (name : Text)
  | bucketsCapped (address count cap : UInt64)
  | directoryCapped (address length cap : UInt64)
  -- The stack
  | returnAddressesInRegisters
  | stackDeltaMissing (pc : UInt64) (frames : Nat)
  | returnAddressUnreadable (error : ReadError)
  -- Guesses
  | typeGuessed (register : Text) (address : UInt64) (type : Text)
  | stringGuessed (first second : Text) (length address : UInt64)
  | receiverUnknown (type function : Text)
  | typeGuessDropped (type : Text) (address : UInt64) (confidence : Double)
  | stringGuessDropped (address length : UInt64)
  deriving Repr

namespace Event

def channel : Event → Channel
  | argument .. | channelsSet .. | openFailed .. | parsingElf .. | sectionsParsed ..
  | reanalysed .. => .core
  | mapFailed .. | notElf .. | sectionNamesMissing | sectionHeaderOutside ..
  | sectionContentsOutside .. | typeSectionUnreadable .. | typeLinkUnreadable ..
  | typePastSection .. | typeUnnamed .. | typeKindUnknown .. | typeDataMalformed ..
  | typesMissing .. | overflowFieldMissing .. => .warning
  | tableStartRejected .. | tableMagicUnknown .. | pairsMisaligned .. | functionCountTooLarge ..
  | pairOutside .. | functionInfoOutside .. | endOfTextOutside | versionNarrowed ..
  | tableParsed .. | scanSkipped | scanStarted .. | tableRejected .. | notGo | layoutUnknown ..
  | moduleCandidate .. | moduleNotFound | pcBoundsDiffer .. | moduleWithoutTypes ..
  | typesParsed .. | childOutside .. | swissTableTooLarge .. | bucketsCapped ..
  | directoryCapped .. => .golang
  | returnAddressesInRegisters | stackDeltaMissing .. | returnAddressUnreadable .. => .unwind
  | typeGuessed .. | stringGuessed .. | receiverUnknown .. | typeGuessDropped ..
  | stringGuessDropped .. => .inference

private def dec (n : Nat) : Text := Text.decimal n

private def addr (n : UInt64) : Text := Text.hex n.toNat

/-- The wording of an event. Of a path it shows what the system reads of it. -/
def message : Event → Text
  | argument text => text
  | channelsSet count directory =>
    utf8 "channels set: " ++ dec count ++ utf8 ", log directory: " ++ directory.untilZero
  | openFailed path reason =>
    utf8 "[scopedfd]: Failed to open " ++ path.untilZero ++ utf8 ": " ++ reason
  | mapFailed path => utf8 "Could not map " ++ path.untilZero
  | notElf path => path.untilZero ++ utf8 " is not an ELF file"
  | parsingElf path => utf8 "Parsing ELF file " ++ path.untilZero
  | sectionNamesMissing => utf8 "Section name table missing or out of bounds"
  | sectionHeaderOutside index => utf8 "Section header " ++ dec index ++ utf8 " is out of bounds"
  | sectionContentsOutside name =>
    utf8 "Contents of section " ++ name ++ utf8 " lie outside the file"
  | sectionsParsed count machine => dec count ++ utf8 " sections, machine " ++ dec machine
  | reanalysed isGo =>
    utf8 "reanalysed: " ++ (if isGo then utf8 "Go binary" else utf8 "not a Go binary")
  | tableStartRejected pad instructionSize pointerWidth =>
    utf8 "rejecting table prefix: pad=" ++ dec pad.toNat ++ utf8 ", instruction size=" ++
      dec instructionSize.toNat ++ utf8 ", pointer width=" ++ dec pointerWidth.toNat
  | tableMagicUnknown magic => utf8 "unknown function table magic " ++ Text.hex magic.toNat
  | pairsMisaligned offset width =>
    utf8 "function pairs at " ++ addr offset ++ utf8 " are not " ++ dec width.toNat ++
      utf8 " byte aligned"
  | functionCountTooLarge count => utf8 "implausible function count " ++ dec count.toNat
  | pairOutside index => utf8 "function pair " ++ dec index ++ utf8 " lies outside the table"
  | functionInfoOutside index =>
    utf8 "function info of function " ++ dec index ++ utf8 " lies outside the table"
  | endOfTextOutside => utf8 "end of text entry lies outside the table"
  | versionNarrowed before after =>
    utf8 "version bound " ++ before.render ++ utf8 " narrowed to " ++ after.render
  | tableParsed functions address magic version =>
    utf8 "parsed " ++ dec functions ++ utf8 " functions from table at " ++ addr address ++
      utf8 ", magic " ++ Text.hex magic.toNat ++ utf8 ", version " ++ version.render
  | scanSkipped =>
    utf8 "PE image without a named function table; not scanning unless support is forced"
  | scanStarted name =>
    utf8 "PE image detected, scanning " ++ name ++ utf8 " for a function table"
  | tableRejected address =>
    utf8 "function table candidate at " ++ addr address ++ utf8 " rejected"
  | notGo => utf8 "no function table found, not a Go binary"
  | layoutUnknown version => utf8 "no module data layout for " ++ version.render
  | moduleCandidate name offset =>
    utf8 "module data candidate at " ++ name ++ utf8 "+" ++ Text.hex offset
  | moduleNotFound => utf8 "no module data found"
  | pcBoundsDiffer low high =>
    utf8 "candidate rejected: pc bounds [" ++ addr low ++ utf8 ", " ++ addr high ++
      utf8 "] don't match the function table"
  | typeSectionUnreadable error => utf8 "type section could not be read: " ++ error.message
  | typeLinkUnreadable index error =>
    utf8 "type link " ++ dec index.toNat ++ utf8 " unreadable: " ++ error.message
  | moduleWithoutTypes offset =>
    utf8 "module data at offset " ++ addr offset ++ utf8 " yielded no types"
  | typesParsed count low high =>
    utf8 "parsed " ++ dec count ++ utf8 " types from [" ++ addr low ++ utf8 ", " ++ addr high ++
      utf8 ")"
  | typePastSection address =>
    utf8 "type at " ++ addr address ++ utf8 " extends past the type section"
  | typeUnnamed address => utf8 "type at " ++ addr address ++ utf8 " has no readable name"
  | typeKindUnknown name address kind =>
    utf8 "type " ++ name ++ utf8 " at " ++ addr address ++ utf8 " has unknown kind " ++ dec kind
  | typeDataMalformed name address kind =>
    utf8 "type " ++ name ++ utf8 " at " ++ addr address ++ utf8 ": " ++ kind ++
      utf8 " data is malformed"
  | childOutside name address =>
    name ++ utf8 " refers to " ++ addr address ++ utf8 ", outside the type section"
  | typesMissing address =>
    utf8 "no type information found for function table at " ++ addr address
  | swissTableTooLarge address groups =>
    utf8 "swiss table at " ++ addr address ++ utf8 " claims " ++ dec groups.toNat ++ utf8 " groups"
  | overflowFieldMissing name => utf8 "bucket type " ++ name ++ utf8 " has no overflow field"
  | bucketsCapped address count cap =>
    utf8 "map at " ++ addr address ++ utf8 ": " ++ dec count.toNat ++ utf8 " buckets capped at " ++
      dec cap.toNat
  | directoryCapped address length cap =>
    utf8 "swiss map at " ++ addr address ++ utf8 ": directory of " ++ dec length.toNat ++
      utf8 " tables capped at " ++ dec cap.toNat
  | returnAddressesInRegisters =>
    utf8 "return addresses aren't saved on the stack on this architecture"
  | stackDeltaMissing pc frames =>
    utf8 "no stack delta for pc " ++ addr pc ++ utf8 ", walk ends after " ++ dec frames ++
      utf8 " frames"
  | returnAddressUnreadable error => utf8 "return address unreadable: " ++ error.message
  | typeGuessed register address type =>
    register ++ utf8 " = " ++ addr address ++ utf8 " guessed to be " ++ type
  | stringGuessed first second length address =>
    first ++ utf8 ":" ++ second ++ utf8 " guessed to be a string of length " ++ dec length.toNat ++
      utf8 " at " ++ addr address
  | receiverUnknown type function =>
    utf8 "receiver type " ++ type ++ utf8 " of " ++ function ++ utf8 " not in the type graph"
  | typeGuessDropped type address confidence =>
    utf8 "type guess " ++ type ++ utf8 " for " ++ addr address ++ utf8 " dropped, confidence " ++
      confidence.renderTwoPlaces
  | stringGuessDropped address length =>
    utf8 "string guess at " ++ addr address ++ utf8 " of length " ++ dec length.toNat ++
      utf8 " dropped"

end Event

/-- A result and the events on the way to it. -/
structure Logged (α : Type) where
  value : α
  /-- The events, first to last. -/
  events : List Event

namespace Logged

variable {α β : Type}

instance : Monad Logged where
  pure a := ⟨a, []⟩
  bind x f :=
    let y := f x.value
    ⟨y.value, x.events ++ y.events⟩

/-- Nothing but an event. -/
def event (e : Event) : Logged Unit := ⟨(), [e]⟩

@[simp] theorem value_pure (a : α) : (pure a : Logged α).value = a := rfl

@[simp] theorem value_bind (x : Logged α) (f : α → Logged β) :
    (x >>= f).value = (f x.value).value := rfl

@[simp] theorem events_pure (a : α) : (pure a : Logged α).events = [] := rfl

@[simp] theorem events_bind (x : Logged α) (f : α → Logged β) :
    (x >>= f).events = x.events ++ (f x.value).events := rfl

@[simp] theorem value_event (e : Event) : (event e).value = () := rfl

end Logged

end GoInspect
