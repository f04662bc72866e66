import GoInspect.Extract.Map

/-!
# Extraction

Reading the object of any type at an address. Arrays, slices, structs and maps use up depth;
pointers and interfaces do not, but each address is followed once. A map can still lead back to
itself through the type of its buckets without losing depth, so that the nesting of steps is bounded
explicitly.
-/

namespace GoInspect

namespace Extract

variable (s : Source) (read : Reader)

/-- The values of `count` objects of a type, a stride apart, unless one is bad. -/
def elements (type : GoType) (stride : UInt64) (depth : UInt32) :
    (count : Nat) → (address : UInt64) → Reading (Option (List Value))
  | 0, _ => pure (some [])
  | count + 1, address => do
    let v ← read type address depth
    if v.isBad then pure none
    else
      match ← elements type stride depth count (address + stride) with
      | none => pure none
      | some rest => pure (some (v :: rest))

/-- The padded size of an element and the alignment of the address fit an array of a total size. -/
def fitsArray (type : GoType) (length total address : UInt64) : Bool :=
  address % type.align == 0 && roundUp type.size type.align * length == total

/-- An array of elements of a type. One bad element says that the memory of the array is not there.
-/
def arrayOf (type : GoType) (length total address : UInt64) (depth : UInt32) : Reading Value :=
  if fitsArray type length total address then
    if depth = 0 then pure (.unparsed address certain)
    else do
      let stride := roundUp type.size type.align
      match ← elements read type stride (depth - 1) length.toNat address with
      | none => pure .bad
      | some vs => pure (.mk (Value.meanConfidence vs) (.array vs))
  else pure .bad

/-- The object that the pointer at an address leads to. One that was visited before is not read
again, and one that is bad leaves its address. -/
def pointerTo (type : Option GoType) (address : UInt64) (depth : UInt32) : Reading Value :=
  match type with
  | none => pure .bad
  | some t =>
    match s.readWord? address with
    | none => pure .bad
    | some 0 => pure (.pointer 0 ConfidenceLevel.medium.value)
    | some target => do
      if ← visit target then
        let v ← read t target depth
        if v.isBad then pure (.pointer target ConfidenceLevel.junk.value) else pure v
      else pure (.unparsed target ConfidenceLevel.high.value)

/-- The address of the type of an interface value whose first word is given. With methods the first
word leads to a table whose second word is the type. -/
def dynamicType? (hasMethods : Bool) (first : UInt64) : Option UInt64 :=
  if hasMethods then s.readWord? (s.wordAt first 1) else some first

/-- An interface value. Where its type is not known or its data is bad, the place of its data is
left. -/
def interface (hasMethods : Bool) (address : UInt64) (depth : UInt32) : Reading Value :=
  match s.readWord? address with
  | none => pure .bad
  | some first =>
    let data := s.wordAt address 1
    let unknown : Value := .pointer data ConfidenceLevel.low.value
    match (dynamicType? s hasMethods first).bind s.graph.find? with
    | none => pure unknown
    | some t => do
      let v ← pointerTo s read (some t) data depth
      if v.isBad then pure unknown else pure v

/-- Elements of a slice that are read at most. -/
def longSlice : UInt64 := 100

/-- The confidence in a slice by its length and its capacity. -/
def sliceConfidence (length capacity : UInt64) : Float :=
  Confidence.least (Confidence.ofLength length 1000 100) (Confidence.ofLength capacity 2000 200)

/-- A slice of elements of a type. Where the elements are bad, the header is left. -/
def slice (type : Option GoType) (address : UInt64) (depth : UInt32) : Reading Value :=
  match type, s.readWord? address, s.readWord? (s.wordAt address 1),
    s.readWord? (s.wordAt address 2) with
  | some t, some base, some length, some capacity =>
    if base % t.align ≠ 0 ∨ capacity < length then pure .bad
    else
      let header := fun confidence vs => Value.mk confidence (.slice base length capacity vs)
      let score := sliceConfidence length capacity
      -- No capacity is unusual for a live slice.
      if capacity = 0 then pure (header ConfidenceLevel.low.value [])
      else if depth = 0 then pure (.unparsed base score)
      else if length = 0 then pure (header score [])
      else do
        match ← elements read t (roundUp t.size t.align) (depth - 1) (min length longSlice).toNat
          base with
        | none => pure (header ConfidenceLevel.low.value [])
        | some vs => pure (header ((score + Value.meanConfidence vs) / 2) vs)
  | _, _, _, _ => pure .bad

/-- The leading fields of a struct that can be read, with their names. Later ones may not be
initialised where earlier ones hold good data. -/
def fields (address : UInt64) (depth : UInt32) :
    List (Field (TypeRef GoType)) → Reading (List (Text × Value))
  | [] => pure []
  | f :: rest =>
    match s.graph.deref? f.type with
    | none => pure []
    | some t => do
      let v ← read t (address + f.offset) depth
      if v.isBad then pure []
      else
        let others ← fields address depth rest
        pure ((f.name, v) :: others)

/-- A struct, which is bad if its first field is. -/
def struct (declared : List (Field (TypeRef GoType))) (address : UInt64) (depth : UInt32) :
    Reading Value :=
  if depth = 0 then pure (.unparsed address certain)
  else if declared.isEmpty then pure (.mk certain (.struct [] []))
  else do
    match ← fields s read address (depth - 1) declared with
    | [] => pure .bad
    | found =>
      let values := found.map Prod.snd
      pure (.mk (Value.meanConfidence values) (.struct (found.map Prod.fst) values))

/-- The object of a type at an address, given how the objects inside are read. -/
def step (t : GoType) (address : UInt64) (depth : UInt32) : Reading Value :=
  match t.shape with
  | .basic kind => pure (basic s kind address)
  | .chan .. | .func .. => pure (.pointer address certain)
  | .array elem _ length =>
    match s.graph.deref? elem with
    | none => pure .bad
    | some e => arrayOf read e length t.size address depth
  | .interface methods => interface s read (!methods.isEmpty) address depth
  | .map _ _ bucket =>
    match s.graph.deref? bucket with
    | none => pure .bad
    | some b =>
      if t.version.swissMaps then swissMap s read b address depth
      else legacyMap s read b address depth
  | .pointer elem => pointerTo s read (s.graph.deref? elem) address depth
  | .slice elem => slice s read (s.graph.deref? elem) address depth
  | .struct declared => struct s read declared address depth

/-- Reading by at most `limit` steps inside each other. -/
def within : (limit : Nat) → Reader
  | 0 => fun _ _ _ _ => none
  | limit + 1 => step s (within limit)

/-- Steps inside each other that are taken at most. -/
def limit : Nat := 0x4000000000000000

def reader : Reader := within s limit

/-- The value of the object of a type at an address, read from scratch. One whose reading meets the
bound counts as bad. -/
def value (t : GoType) (address : UInt64) (depth : UInt32) : Logged Value :=
  match reader s t address depth {} with
  | none => pure .bad
  | some (v, trace) => ⟨v, trace.events.toList⟩

end Extract

end GoInspect
