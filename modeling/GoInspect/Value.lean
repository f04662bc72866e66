import GoInspect.Confidence
import GoInspect.Double
import GoInspect.Bytes

/-!
# Values

A value read out of memory under some type, with the confidence that memory really holds an object
of that type. Values may be cut short: where the depth ran out, where memory could not be read, and
where a string or a slice is long.
-/

namespace GoInspect

/-- What was read, given how the values inside are represented. -/
inductive ValueData (ν : Type) where
  /-- The memory cannot be read, or cannot hold an object of the type. -/
  | bad
  /-- There is more to read, but the depth ran out. -/
  | unparsed (address : UInt64)
  | bool (value : Bool)
  /-- An integer as a 64-bit word, sign extended if it is signed. -/
  | integer (raw : UInt64) (isSigned : Bool)
  | float (value : Double)
  | complex (re im : Double)
  | array (elements : List ν)
  /-- The header of a slice, and elements unless they could not be read; fewer where it is long. -/
  | slice (base length capacity : UInt64) (elements : List ν)
  /-- The header of a string, and bytes unless they could not be read; fewer where it is long. -/
  | string (base length : UInt64) (bytes : Bytes)
  | struct (names : List Text) (values : List ν)
  | map (keys values : List ν)
  | pointer (address : UInt64)

/-- A value and how plausible it is. -/
inductive Value where
  | mk (confidence : Float) (data : ValueData Value)

namespace Value

def confidence : Value → Float
  | mk c _ => c

def data : Value → ValueData Value
  | mk _ d => d

/-- Memory that cannot be read, or cannot hold an object of the type. -/
def bad : Value := mk 0.0 .bad

instance : Inhabited Value := ⟨bad⟩

/-- An object that was not read. -/
def unparsed (address : UInt64) (confidence : Float) : Value := mk confidence (.unparsed address)

/-- The address of an object that was not read. -/
def pointer (address : UInt64) (confidence : Float) : Value := mk confidence (.pointer address)

def isBad (v : Value) : Bool :=
  match v.data with
  | .bad => true
  | _ => false

/-- The mean confidence of values, full for none. -/
def meanConfidence (vs : List Value) : Float :=
  if vs.isEmpty then 1.0
  else vs.foldl (fun sum v => sum + v.confidence) 0.0 / Float.ofNat vs.length

/-- The value of the first field of a name, given the names and values of fields. -/
def fieldOf? (names : List Text) (values : List Value) (name : Text) : Option Value :=
  ((names.zip values).find? fun (n, _) => n == name).map Prod.snd

end Value

end GoInspect
