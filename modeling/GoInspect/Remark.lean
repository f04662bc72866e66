import GoInspect.Analysis
import GoInspect.Extract
import GoInspect.GoType.Render
import GoInspect.Inference
import GoInspect.Text.Escape
import GoInspect.Text.Utf16
import GoInspect.Value.Render

/-!
# Remarks

The short text beside a value in a listing of registers or of the stack: the function it lies in,
the type it is the address of, the object or the string it is guessed to point to, or any of these
for the word it points to. Guesses that turn out wrong are dropped on the way, and an interface
value in memory adds one.
-/

namespace GoInspect

namespace GuessedString

def unprintableShare (cs : List CodePoint) : Float :=
  if cs.isEmpty then 1.0
  else Float.ofNat (cs.countP (!·.isPrintable)) / Float.ofNat cs.length

/-- Characters that are shown at most. -/
def shownLength : Nat := 256

/-- The characters up to a zero, at most `limit` of them. Replacements are left out and do not
count, and a line feed is shown as a space. -/
def shown : (limit : Nat) → List CodePoint → List CodePoint
  | 0, _ => []
  | _ + 1, [] => []
  | limit + 1, c :: rest =>
    if c = 0 then []
    else if c = CodePoint.replacement then shown (limit + 1) rest
    else (if c = 10 then 32 else c) :: shown limit rest

/-- The text of a guessed string. Its bytes are read as UTF-8 or UTF-16, whichever leaves fewer
unprintable characters; plain text is printable as both, and is UTF-8. Too few printable characters
give no text. -/
def text (bytes : Text) : Text :=
  let narrow := Utf8.decode bytes
  let wide := Utf16.decode bytes
  let (best, share) :=
    if unprintableShare wide < unprintableShare narrow then (wide, unprintableShare wide)
    else (narrow, unprintableShare narrow)
  if 1.0 - share < 0.66 then []
  else Text.escaped false (CodePoint.encodeAll (shown shownLength best))

end GuessedString

namespace Remark

structure Context where
  analysis : Analysis
  memory : Memory
  settings : Settings

/-- A step that may change the guesses. -/
abbrev Remarking := StateT Guesses Logged

def note (e : Event) : Remarking Unit := fun g => ⟨((), g), [e]⟩

variable (c : Context)

def readWord? (address : UInt64) : Option UInt64 :=
  let width := c.analysis.pointerWidth
  if fitsAddressSpace address width.toUInt64 width then
    (c.memory.readUnsigned address width).toOption
  else none

def objectDepth : UInt32 := 3

def typeDepth : UInt32 := 2

/-- Type names are cut to this many bytes. -/
def shownNameLength : Nat := 30

def shownName (name : Text) : Text :=
  if shownNameLength < name.length then name.take (shownNameLength - 1) ++ utf8 ".." else name

/-- The type name and the text of a guessed object. A guess whose object is not plausible enough is
dropped. -/
def object? (address : UInt64) : Remarking (Option (Text × Text)) := do
  let guesses ← get
  match c.analysis.types, guesses.types.find? address with
  | some graph, some typeAddress =>
    match graph.find? typeAddress with
    | none => pure none
    | some t =>
      let value ← (Extract.value ⟨c.memory, c.analysis.pointerWidth, graph, c.settings⟩ t address
        objectDepth : Logged Value)
      if Confidence.meets value.confidence c.settings.confidence then
        let name := shownName t.name
        let rendered := value.render
        let shown := if name = utf8 "string" then utf8 "\"" ++ rendered ++ utf8 "\"" else rendered
        pure (some (utf8 "(" ++ name ++ utf8 ")", shown))
      else
        note (.typeGuessDropped t.name address (.ofFloat value.confidence))
        modify (·.removeType address)
        pure none
  | _, _ => pure none

/-- The text of a guessed string. A guess without one is dropped. -/
def string? (address : UInt64) : Remarking (Option Text) := do
  let guesses ← get
  match guesses.strings.find? address with
  | none => pure none
  | some length =>
    let bytes :=
      if fitsAddressSpace address length c.analysis.pointerWidth then
        (c.memory.readBytes address length).toOption.filter (·.size = length.toNat)
      else none
    let text := (bytes.map fun b => GuessedString.text b.toList).getD []
    if text.isEmpty then
      note (.stringGuessDropped address length)
      modify (·.removeString address)
      pure none
    else pure (some text)

/-- The object of an interface value, given where its type word lies: the word behind that. It is
guessed to be of the type. -/
def interfaceObject? (typeAddress : UInt64) (containing : Option UInt64) :
    Remarking (Option Text) :=
  match containing.bind fun a => readWord? c (a + c.analysis.pointerWidth.toUInt64) with
  | none => pure none
  | some object =>
    if minPointer ≤ object then do
      modify (·.addType object typeAddress)
      pure ((← object? c object).map Prod.snd)
    else pure none

/-- The remark on the address of a type. -/
def typePointer (graph : TypeGraph) (t : GoType) (address : UInt64)
    (containing : Option UInt64) : Remarking Text := do
  let object ← interfaceObject? c address containing
  let rendered := t.render graph typeDepth
  pure (utf8 " Go type ptr: " ++ t.name ++
    (if rendered = t.name then [] else utf8 " = " ++ rendered) ++
    (match object with
      | none => []
      | some text => utf8 ", possible match: " ++ text ++ utf8 "?"))

/-- The remark on a value as a type or as the address of an object. -/
def typeOrObject (value : UInt64) (containing : Option UInt64) : Remarking Text :=
  match c.analysis.types with
  | none => pure []
  | some graph =>
    match graph.find? value with
    | some t => typePointer c graph t value containing
    | none => do
      match ← object? c value with
      | some (name, text) => pure (utf8 " " ++ name ++ utf8 " " ++ text)
      | none => pure []

/-- The remark on a value by itself. -/
def direct (value : UInt64) (containing : Option UInt64) : Remarking Text :=
  match c.analysis.functions.find? value with
  | some (f, offset) =>
    pure (if f.name.isEmpty then []
      else utf8 " <" ++ f.name ++ utf8 "+" ++ Text.decimal offset.toNat ++ utf8 ">")
  | none => do
    let line ← typeOrObject c value containing
    if line.isEmpty then
      match ← string? c value with
      | some text => pure (utf8 " (\"" ++ text ++ utf8 "\")")
      | none => pure []
    else pure line

/-- The remark on a value, read from an address if that is given. Where nothing is known about
the value itself, the word it points to is remarked on. -/
def annotate (value : UInt64) (containing : Option UInt64) : Remarking Text := do
  let line ← direct c value containing
  if line.isEmpty ∧ minPointer < value then
    match readWord? c value with
    | none => pure []
    | some target =>
      let inner ← direct c target (some value)
      if inner.isEmpty then pure []
      else pure (utf8 " *" ++ Text.hex target.toNat ++ inner)
  else pure line

end Remark

end GoInspect
