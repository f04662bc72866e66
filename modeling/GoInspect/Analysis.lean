import GoInspect.FunctionTable.Locate
import GoInspect.TypeGraph.Module

/-!
# Analysis

What is recovered from a binary: its function table, and its types if there are any to be found. The
places where the table may be are tried until one holds a table. A binary without one is not a Go
binary, as far as inspection can tell.
-/

namespace GoInspect

/-- What is recovered from a binary. -/
structure Analysis where
  functions : FunctionTable
  /-- The types, if they were found. -/
  types : Option TypeGraph

namespace Analysis

def pointerWidth (a : Analysis) : UInt32 := a.functions.pointerWidth

/-- The analysis from a function table on. -/
def ofTable (image : Image) (m : Memory) (t : FunctionTable) (address : UInt64) :
    Logged Analysis := do
  let types ← TypeGraph.ofImage t m image address
  if types.isNone then Logged.event (.typesMissing address)
  pure ⟨t, types⟩

/-- The analysis by the places that are left to try, at most `limit` of them, and the level of
support from then on. -/
def search (image : Image) (m : Memory) (pointerWidth : UInt32) :
    (limit : Nat) → FunctionTable.Locator → SupportLevel →
      Logged (Option Analysis × SupportLevel)
  | 0, _, level => pure (none, level)
  | limit + 1, locator, level => do
    let (candidate, rest, level) ← locator.next image m pointerWidth level
    match candidate with
    | none =>
      Logged.event .notGo
      pure (none, level)
    | some c =>
      match ← FunctionTable.decodeLogged c m with
      | .ok t =>
        let analysis ← ofTable image m t c.fileAddress
        pure (some analysis, level)
      | .error _ =>
        Logged.event (.tableRejected c.fileAddress)
        search image m pointerWidth limit rest level

/-- There are no more places than two sections and, for each magic number, the offsets into the
read-only data. -/
def placeLimit (image : Image) : Nat :=
  match image.section? FunctionTable.scannedSection with
  | none => 3
  | some s => 3 + FunctionTable.generations.length * (s.data.size + 1)

/-- The analysis of a binary, and the level of support from then on. Nothing is analysed where
support is disabled. -/
def run (image : Image) (m : Memory) (pointerWidth : UInt32) (level : SupportLevel) :
    Logged (Option Analysis × SupportLevel) :=
  if level = .disable then pure (none, level)
  else search image m pointerWidth (placeLimit image) .start level

end Analysis

end GoInspect
