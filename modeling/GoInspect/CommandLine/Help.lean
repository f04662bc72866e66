import GoInspect.CommandLine
import GoInspect.Text.Wrap

/-!
# Help texts

A help text tells how a program is used, and then describes each option beside its names. The column
of the names is as wide as the widest of them, and descriptions are wrapped in what is left of a
line.
-/

namespace GoInspect

namespace CommandLine

def placeholder : Text := utf8 " <value> "

def lineWidth : Nat := 100

/-- Widths are counted modulo this. -/
def widthModulus : Nat := 0x10000

def indent : Text := utf8 "  "

def line (t : Text) : Text := t ++ [10]

def padded (width : Nat) (t : Text) : Text := t ++ List.replicate (width - t.length) 32

/-- An option or a variable as help shows it. -/
structure HelpEntry where
  short : Text
  long : Text
  /-- Neither has a value. -/
  isFlag : Bool
  info : Text

namespace HelpEntry

variable (e : HelpEntry)

/-- The width that the names ask for. -/
def width : Nat :=
  e.short.length + e.long.length + (if e.isFlag then 0 else placeholder.length) + indent.length

def names : Text :=
  indent ++ (if e.short.isEmpty then [] else e.short ++ utf8 ", ") ++ e.long ++
    if e.isFlag then [] else placeholder

/-- The names and the description in columns of two widths. -/
def render (left right : Nat) : Text :=
  match Text.wrap right e.info with
  | [] => line e.names
  | first :: rest =>
    line (padded left e.names ++ first) ++ rest.flatMap fun t => line (padded left [] ++ t)

end HelpEntry

/-- The order of texts by their bytes. -/
def inOrder (a b : Text) : Bool := decide (a ≤ b)

variable {σ : Type}

def CommandOption.helpEntry (o : CommandOption σ) : HelpEntry :=
  ⟨o.short, o.long, o.action.isFlag, o.info⟩

def Variable.helpEntry (v : Variable σ) : HelpEntry := ⟨[], v.name, false, v.info⟩

namespace Registry

variable (r : Registry σ)

def helpEntries : List HelpEntry :=
  r.options.map CommandOption.helpEntry ++ r.environment.map Variable.helpEntry

def leftWidth : Nat := ((r.helpEntries.map HelpEntry.width).foldl max 0 + 1) % widthModulus

def rightWidth : Nat := (widthModulus + lineWidth - r.leftWidth) % widthModulus

/-- The help text. Options are in the order of their descriptions' texts, names first. -/
def help : Text :=
  let describe := fun e : HelpEntry => e.render r.leftWidth r.rightWidth
  utf8 "Usage:\n\n  " ++ r.usage ++ utf8 "\n\nOptions:\n\n" ++
    ((r.options.map fun o => describe o.helpEntry).mergeSort inOrder).flatten ++
    utf8 "\nEnvironment variables:\n\n" ++
    (r.environment.map fun v => describe v.helpEntry).flatten

end Registry

end CommandLine

end GoInspect
