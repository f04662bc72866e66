import GoInspect.Text

/-!
# Named alternatives

Settings, log channels, kinds and errors are closed lists of alternatives with names. A class lists
them once, in order, and the look-ups by name and by position follow from the list.
-/

namespace GoInspect

/-- A closed list of named alternatives. -/
class Enumeration (α : Type) where
  /-- The alternatives in order. -/
  all : List α
  name : α → Text

namespace Enumeration

variable {α : Type} [Enumeration α]

def ofName? (t : Text) : Option α := (all : List α).find? fun a => name a == t

/-- The alternative of a name, whatever the case of its letters. -/
def ofNameIgnoringCase? (t : Text) : Option α :=
  (all : List α).find? fun a => Text.lower (name a) == Text.lower t

/-- The alternative at a position counted from zero. -/
def ofIndex? (i : Int) : Option α := if 0 ≤ i then (all : List α)[i.toNat]? else none

end Enumeration

end GoInspect
