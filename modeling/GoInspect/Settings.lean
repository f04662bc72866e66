import GoInspect.Confidence

/-!
# Settings

What a user chooses about an inspection.
-/

namespace GoInspect

/-- How much effort goes into recognising a binary. -/
inductive SupportLevel where
  /-- The binary is never analysed. -/
  | disable
  /-- The binary is analysed when a section of the right name is there. -/
  | auto
  /-- Read-only data is searched too where no section has the right name. -/
  | force
  deriving DecidableEq, Repr

instance : Enumeration SupportLevel where
  all := [.disable, .auto, .force]
  name
    | .disable => utf8 "Disable"
    | .auto => utf8 "Auto"
    | .force => utf8 "Force"

structure Settings where
  /-- How much effort goes into recognising a binary. -/
  support : SupportLevel := .auto
  /-- The least confidence of a guess that is shown. -/
  confidence : ConfidenceThreshold := .medium
  /-- How deep objects and types are unpacked. -/
  depth : UInt32 := 3
  /-- Tables that are read at most from the directory of a Swiss map. -/
  swissDirectoryCap : UInt64 := 65536
  /-- Overflow buckets that are followed at most from a bucket of a map. -/
  overflowDepth : UInt32 := 8
  deriving DecidableEq, Repr

end GoInspect
