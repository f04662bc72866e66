/-!
# Text as bytes

A name read out of a binary need not be well-formed UTF-8, and whatever is printed about it has to
carry its bytes unchanged. Text is therefore the list of its bytes. `utf8` gives the text of a Lean
string; the rest are the few cuts and joins that names, options and messages need.
-/

namespace GoInspect

/-- Text as the bytes that are stored or printed. -/
abbrev Text := List UInt8

def utf8 (s : String) : Text := s.toUTF8.data.toList

namespace Text

def ascii (c : Char) : UInt8 := c.toNat.toUInt8

/-- Space, tab, line feed, carriage return, form feed and vertical tab. No other byte is blank. -/
def isBlank (b : UInt8) : Bool :=
  b == 32 || b == 9 || b == 10 || b == 13 || b == 12 || b == 11

def trimStart (t : Text) : Text := t.dropWhile isBlank

def trimEnd (t : Text) : Text := (t.reverse.dropWhile isBlank).reverse

def trim (t : Text) : Text := t.trimStart.trimEnd

def stripPrefix? (t start : Text) : Option Text :=
  if start.isPrefixOf t then some (t.drop start.length) else none

/-- The text without a given beginning, unchanged where it begins otherwise. -/
def withoutPrefix (t start : Text) : Text := (t.stripPrefix? start).getD t

/-- The text around the first `separator`, or nothing when there is none. -/
def cut? (separator : UInt8) : Text → Option (Text × Text)
  | [] => none
  | b :: rest =>
    if b = separator then some ([], rest)
    else (cut? separator rest).map fun (before, after) => (b :: before, after)

/-- The pieces between the separators, empty ones included; there is always one more than there are
separators. -/
def pieces (separator : UInt8) : Text → List Text
  | [] => [[]]
  | b :: rest =>
    if b = separator then [] :: pieces separator rest
    else
      match pieces separator rest with
      | [] => [[b]]
      | first :: others => (b :: first) :: others

/-- The pieces between the separators that are not empty. -/
def fields (separator : UInt8) (t : Text) : List Text :=
  (pieces separator t).filter (!·.isEmpty)

/-- The texts one after another with `separator` between neighbours. -/
def join (separator : Text) (ts : List Text) : Text := separator.intercalate ts

/-- What follows the last `/`, the whole text when there is none. -/
def lastComponent (t : Text) : Text := (t.reverse.takeWhile (· != 47)).reverse

/-- What stands before the first zero byte, the whole text when there is none. The length of a name,
a path or an argument that is passed without it is known by that byte. -/
def untilZero (t : Text) : Text := t.takeWhile (· != 0)

/-- An ASCII capital as its small letter, any other byte as it is. -/
def lowerByte (b : UInt8) : UInt8 := if 65 ≤ b ∧ b ≤ 90 then b + 32 else b

def lower (t : Text) : Text := t.map lowerByte

end Text

end GoInspect
