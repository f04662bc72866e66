import GoInspect.FunctionTable.Decode
import GoInspect.Image
import GoInspect.Settings

/-!
# Where a function table may be

Sections that are named for the table are tried first. A portable executable has no such name for
it; its read-only data is searched for the start of a table instead, but only where the user
insists. Where the user does not, the level of support drops so that no later analysis tries again.
-/

namespace GoInspect

namespace FunctionTable

/-- Sections that are named for the table. -/
def sectionNames : List Text := [utf8 ".gopclntab", utf8 "__gopclntab"]

/-- The section that is searched for a table without a section of its own. -/
def scannedSection : Text := utf8 ".rdata"

/-- What is left to try. -/
inductive Locator where
  /-- The sections of these names, and then a search. -/
  | sections (names : List Text)
  /-- The read-only data from an offset on for the first magic number, from its start for the
  others. -/
  | scan (data : Section) (magics : List UInt32) (offset : Nat)
  | finished
  deriving Repr

def Locator.start : Locator := .sections sectionNames

/-- The bytes at an offset look like the start of a table for pointers of a width. -/
def startsTable (data : Bytes) (magic : UInt32) (pointerWidth : UInt32) (offset : Nat) : Bool :=
  (data.slice offset 4).toWord == magic.toUInt64 && (data.slice (offset + 4) 2).toWord == 0 &&
    isInstructionSize (data.getD (offset + 6) 0).toUInt64 &&
    (data.getD (offset + 7) 0).toUInt32 == pointerWidth

/-- The first offset, a whole number of pointers from `offset` on, that looks like the start of a
table. -/
def scanFor? (data : Bytes) (magic : UInt32) (pointerWidth : UInt32) (offset : Nat) : Option Nat :=
  if _h : offset + 8 ≤ data.size ∧ 0 < pointerWidth.toNat then
    if startsTable data magic pointerWidth offset then some offset
    else scanFor? data magic pointerWidth (offset + pointerWidth.toNat)
  else none
termination_by data.size - offset
decreasing_by omega

/-- The next place in the read-only data, and what is left after it. -/
def scanNext (data : Section) (m : Memory) (pointerWidth : UInt32) :
    List UInt32 → Nat → Option Candidate × Locator
  | [], _ => (none, .finished)
  | magic :: rest, offset =>
    match scanFor? data.data magic pointerWidth offset with
    | some found =>
      let address := data.address + UInt64.ofNat found
      (some ⟨data.data.extract found, address, m.toRuntime address⟩,
        .scan data (magic :: rest) (found + pointerWidth.toNat))
    | none => scanNext data m pointerWidth rest 0

/-- The first section of the names that is there and not empty, and the names after it. -/
def nextSection? (image : Image) : List Text → Option (Section × List Text)
  | [] => none
  | name :: rest =>
    match image.section? name with
    | some s => if s.data.isEmpty then nextSection? image rest else some (s, rest)
    | none => nextSection? image rest

/-- The next place to try, what is left after it, and the level of support from now on. -/
def Locator.next (image : Image) (m : Memory) (pointerWidth : UInt32) (level : SupportLevel) :
    Locator → Logged (Option Candidate × Locator × SupportLevel)
  | .sections names =>
    match nextSection? image names with
    | some (s, rest) =>
      pure (some ⟨s.data, s.address, m.toRuntime s.address⟩, .sections rest, level)
    | none =>
      if image.format ≠ .portableExecutable then pure (none, .finished, level)
      else
        match level with
        | .auto => ⟨(none, .finished, .disable), [.scanSkipped]⟩
        | .disable => pure (none, .finished, level)
        | .force =>
          ⟨match image.section? scannedSection with
            | none => (none, .finished, level)
            | some data =>
              let (candidate, rest) :=
                scanNext data m pointerWidth (generations.map Generation.magic) 0
              (candidate, rest, level),
            [.scanStarted scannedSection]⟩
  | .scan data magics offset =>
    let (candidate, rest) := scanNext data m pointerWidth magics offset
    pure (candidate, rest, level)
  | .finished => pure (none, .finished, level)

end FunctionTable

end GoInspect
