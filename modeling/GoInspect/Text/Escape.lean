import GoInspect.Text.Number
import GoInspect.Text.Utf8

/-!
# Escaped text

Text as it is shown: line feeds, returns, tabs and backslashes in their two-character forms, other
characters that do not print by number, everything else as it is.
-/

namespace GoInspect

namespace CodePoint

/-- A code point as it is shown. A double quote is escaped on request, for text between quotes. The
number of an unprintable character takes two, four or eight digits, whichever hold it. -/
def escaped (quotes : Bool) (c : CodePoint) : Text :=
  if c = 10 then utf8 "\\n"
  else if c = 13 then utf8 "\\r"
  else if c = 9 then utf8 "\\t"
  else if c = 92 then utf8 "\\\\"
  else if c = 34 then (if quotes then utf8 "\\\"" else utf8 "\"")
  else if c.isPrintable || c == replacement then c.encode
  else if c < 0x100 then utf8 "\\x" ++ Text.paddedHex 2 c.toNat
  else if c < 0x10000 then utf8 "\\u" ++ Text.paddedHex 4 c.toNat
  else utf8 "\\U" ++ Text.paddedHex 8 c.toNat

end CodePoint

namespace Text

/-- Arbitrary bytes as they are shown. -/
def escaped (quotes : Bool) (t : Text) : Text :=
  (Utf8.decode t).flatMap (CodePoint.escaped quotes)

end Text

end GoInspect
