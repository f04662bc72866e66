import GoInspect.Text.Number

/-!
# Release bounds

What a binary shows of its compiler is a range of minor releases. Layouts of its tables changed from
release to release, so each reader asks whether the whole range lies on one side of a change.
-/

namespace GoInspect

/-- An inclusive range of minor releases. -/
structure VersionBound where
  min : UInt32
  max : UInt32
  deriving DecidableEq, Repr, Inhabited

namespace VersionBound

variable (v : VersionBound)

/-- The whole range lies between two releases. -/
def within (low high : UInt32) : Bool := low ≤ v.min && v.max ≤ high

/-- From 1.9 to 1.18 the offset of a struct field is stored doubled. -/
def shiftedFieldOffsets : Bool := 9 ≤ v.min && v.max ≤ 18

/-- From 1.17 on the length of a name is a variable length number, before it was a big endian 16-bit
number. -/
def varintNames : Bool := 17 ≤ v.min

/-- From 1.24 on maps are Swiss tables. -/
def swissMaps : Bool := 24 ≤ v.min

/-- From 1.17 on arguments are passed in registers. -/
def registerCalls : Bool := 17 ≤ v.min

def render : Text :=
  if v.min = v.max then utf8 "go1." ++ Text.decimal v.min.toNat
  else utf8 "go1." ++ Text.decimal v.min.toNat ++ utf8 "-go1." ++ Text.decimal v.max.toNat

end VersionBound

end GoInspect
