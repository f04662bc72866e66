import GoInspect.TypeGraph

/-!
# Text of types

A type is shown in Go syntax. Its children are shown in full while the depth lasts, and by their
names after that. Slices and maps do not use up depth, so a slice type that is its own element has
no text of finite length. The recursion is bounded, but far beyond the room that there is for steps
inside each other, and nothing comes back where the bound is met.
-/

namespace GoInspect

namespace GoType

variable (g : TypeGraph)

/-- The text of a reference, given how types are shown. A reference to nothing is a question mark.
-/
def renderRef (render : GoType → UInt32 → Option Text) (depth : UInt32) (r : TypeRef GoType) :
    Option Text :=
  match g.deref? r with
  | some t => render t depth
  | none => some (utf8 "?")

/-- The last parameter of a variadic function: its slice type with dots for the brackets. -/
def variadicParameter (t : Text) : Text := utf8 "..." ++ t.withoutPrefix (utf8 "[]")

def changeLast (f : Text → Text) : List Text → List Text
  | [] => []
  | [t] => [f t]
  | t :: rest => t :: changeLast f rest

/-- Results behind a parameter list: one stands alone, several stand in parentheses. Results that
come before the first one with any text leave no comma. -/
def resultText : List Text → Text
  | [] => []
  | [t] => utf8 " " ++ t
  | ts => utf8 " (" ++ Text.join (utf8 ", ") (ts.dropWhile List.isEmpty) ++ utf8 ")"

def signatureText (inputs outputs : List Text) (variadic : Bool) : Text :=
  let inputs := if variadic then changeLast variadicParameter inputs else inputs
  utf8 "func(" ++ Text.join (utf8 ", ") inputs ++ utf8 ")" ++ resultText outputs

def braced (keyword : String) (body : Text) : Text :=
  utf8 keyword ++ utf8 " \x7b " ++ body ++ utf8 " \x7d"

def bracedEmpty (keyword : String) : Text := utf8 keyword ++ utf8 " \x7b\x7d"

/-- The keyword of a channel that is only received from, only sent to, or both. -/
def channelKeyword (direction : UInt64) : Text :=
  if direction = 1 then utf8 "<-chan" else if direction = 2 then utf8 "chan<-" else utf8 "chan"

/-- The methods of an interface whose types are known. Only these are shown. -/
def knownMethods (methods : List (Method (TypeRef GoType))) : List (Text × GoType) :=
  methods.filterMap fun m => (g.deref? m.type).map fun type => (m.name, type)

/-- The text of one type, given how types are shown. -/
def renderStep (render : GoType → UInt32 → Option Text) (t : GoType) (depth : UInt32) :
    Option Text :=
  let ref := renderRef g render
  match t.shape with
  | .basic k => some k.spelling
  | .slice elem => (ref depth elem).map (utf8 "[]" ++ ·)
  | .map key value _ =>
    (ref depth key).bind fun k =>
      (ref depth value).map fun v => utf8 "map[" ++ k ++ utf8 "]" ++ v
  | .pointer elem =>
    match g.deref? elem with
    | none => some (utf8 "*?")
    | some e =>
      if depth = 0 then some (utf8 "*" ++ e.name)
      else (render e (depth - 1)).map (utf8 "*" ++ ·)
  | .array elem _ length =>
    if depth = 0 then some t.name
    else
      (ref (depth - 1) elem).map fun e =>
        utf8 "[" ++ Text.decimal length.toNat ++ utf8 "]" ++ e
  | .chan elem direction =>
    if depth = 0 then some t.name
    else (ref (depth - 1) elem).map fun e => channelKeyword direction ++ utf8 " " ++ e
  | .func inputs outputs variadic =>
    if depth = 0 then some t.name
    else
      (inputs.mapM (ref (depth - 1))).bind fun ins =>
        (outputs.mapM (ref (depth - 1))).map fun outs => signatureText ins outs variadic
  | .interface methods =>
    if depth = 0 then some t.name
    else
      ((knownMethods g methods).mapM fun (name, type) =>
        (render type (depth - 1)).map fun (signature : Text) =>
          name ++ signature.withoutPrefix (utf8 "func")).map fun (ms : List Text) =>
        if ms.isEmpty then bracedEmpty "interface"
        else braced "interface" (Text.join (utf8 "; ") ms)
  | .struct fields =>
    if depth = 0 then some t.name
    else if fields.isEmpty then some (bracedEmpty "struct")
    else
      (fields.mapM fun f =>
        (ref (depth - 1) f.type).map fun e => f.name ++ utf8 " " ++ e).map fun fs =>
        braced "struct" (Text.join (utf8 "; ") fs)

/-- The text of a type whose children are nested less than `limit` deep. -/
def renderWithin : (limit : Nat) → GoType → UInt32 → Option Text
  | 0 => fun _ _ => none
  | limit + 1 => renderStep g (renderWithin limit)

/-- No text of finite length is nested deeper: a built type contains only types with shorter names,
and between two steps that use up depth no node of the graph comes twice. A text without end uses up
all room first. -/
def renderLimit (t : GoType) (depth : UInt32) : Nat :=
  0x4000000000000000 + (t.name.length + 1 + (depth.toNat + 1) * (g.size + 1))

/-- The text of a type, if it has one of finite length. -/
def render? (t : GoType) (depth : UInt32) : Option Text :=
  renderWithin g (t.renderLimit g depth) t depth

/-- The text of a type, its name where no text of finite length exists. -/
def render (t : GoType) (depth : UInt32) : Text := (t.render? g depth).getD t.name

end GoType

end GoInspect
