import GoInspect.Double.Decimal
import GoInspect.Text.Escape
import GoInspect.Value

/-!
# Text of values

Values are shown roughly as Go would print them. Strings inside other values stand in quotes, long
strings are cut, and what was not read is shown by its address.
-/

namespace GoInspect

namespace Value

/-- A floating point number as a value: the shortest text that reads back, with a point or an
exponent wherever the number is finite. -/
def floatText (d : Double) : Text :=
  let t := d.render
  match d.magnitude with
  | .finite .. => if t.contains 46 || t.contains 101 then t else t ++ utf8 ".0"
  | _ => t

/-- Strings are cut to this many characters. -/
def shownLength : Nat := 32

/-- A string as it is shown. One that was not read as a whole is shown by its header. -/
def stringText (base length : UInt64) (bytes : Bytes) : Text :=
  if bytes.size = length.toNat then
    let escaped := Text.escaped false (Utf8.lenient bytes.toList)
    let shown := Utf8.decode escaped
    if shown.length ≤ shownLength then escaped
    else CodePoint.encodeAll (shown.take (shownLength - 1)) ++ utf8 ".."
  else utf8 "<string @" ++ Text.hex base.toNat ++ utf8 " #" ++ Text.decimal length.toNat ++ utf8 ">"

def nestedText (v : Value) (t : Text) : Text :=
  match v.data with
  | .string .. => utf8 "\"" ++ t ++ utf8 "\""
  | _ => t

def listText (ts : List Text) : Text := utf8 "[" ++ Text.join (utf8 ", ") ts ++ utf8 "]"

/-- A slice by its header and the texts of its elements. Elements that were left out are counted. -/
def sliceText (base length capacity : UInt64) (elements : List Text) : Text :=
  if elements.isEmpty then
    utf8 "<slice @" ++ Text.hex base.toNat ++ utf8 " #" ++ Text.decimal length.toNat ++ utf8 "/" ++
      Text.decimal capacity.toNat ++ utf8 ">"
  else
    utf8 "[" ++ Text.join (utf8 ", ") elements ++
      (if elements.length < length.toNat then
        utf8 "..." ++ Text.decimal (length.toNat - elements.length) ++ utf8 " more"
      else []) ++ utf8 "]"

/-- Pairs of a name or a key and a value. -/
def pairTexts (names values : List Text) : List Text :=
  (names.zip values).map fun (name, value) => name ++ utf8 ": " ++ value

mutual

def render : Value → Text
  | mk _ (.bad) => utf8 "?"
  | mk _ (.unparsed address) => Text.hex address.toNat ++ utf8 ".."
  | mk _ (.bool b) => if b then utf8 "true" else utf8 "false"
  | mk _ (.integer raw isSigned) =>
    if isSigned then Text.signedDecimal raw.toInt64.toInt else Text.decimal raw.toNat
  | mk _ (.float d) => floatText d
  | mk _ (.complex re im) => utf8 "(" ++ floatText re ++ utf8 "+" ++ floatText im ++ utf8 "i)"
  | mk _ (.array elements) => listText (renderNested elements)
  | mk _ (.slice base length capacity elements) =>
    sliceText base length capacity (renderNested elements)
  | mk _ (.string base length bytes) => stringText base length bytes
  | mk _ (.struct names values) =>
    utf8 "\x7b" ++ Text.join (utf8 ", ") (pairTexts names (renderNested values)) ++ utf8 "\x7d"
  | mk _ (.map keys values) => listText (pairTexts (renderAll keys) (renderNested values))
  | mk _ (.pointer address) => Text.hex address.toNat

def renderAll : List Value → List Text
  | [] => []
  | v :: rest => render v :: renderAll rest

/-- The texts of values inside another one. -/
def renderNested : List Value → List Text
  | [] => []
  | v :: rest => nestedText v (render v) :: renderNested rest

end

end Value

end GoInspect
