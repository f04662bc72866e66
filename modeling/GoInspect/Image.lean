import GoInspect.Bytes
import GoInspect.Enumeration

/-!
# Images

The file an inspected program was loaded from, as far as inspection asks for it: its format and its
named sections.
-/

namespace GoInspect

inductive ImageFormat where
  | elf | machO | portableExecutable | unknown
  deriving DecidableEq, Repr

instance : Enumeration ImageFormat where
  all := [.elf, .machO, .portableExecutable, .unknown]
  name
    | .elf => utf8 "Elf"
    | .machO => utf8 "MachO"
    | .portableExecutable => utf8 "PortableExecutable"
    | .unknown => utf8 "Unknown"

structure Section where
  name : Text
  /-- The address stored in the binary. -/
  address : UInt64
  data : Bytes
  deriving Repr

def Section.contains (s : Section) (address : UInt64) : Bool :=
  s.address ≤ address && (address - s.address).toNat < s.data.size

structure Image where
  format : ImageFormat
  sections : List Section
  deriving Repr

/-- The first section of a name. -/
def Image.section? (image : Image) (name : Text) : Option Section :=
  image.sections.find? (·.name == name)

end GoInspect
