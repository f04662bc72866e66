import GoInspect.Extract.Basic

/-!
# Reading maps

Up to 1.23 a map is an array of buckets, each of which may continue in a chain of overflow buckets.
From 1.24 on it is a directory of tables of groups, or a single group. Buckets and groups are
structs of the binary and are read like any other; the entries are then picked out of their values.
-/

namespace GoInspect

namespace Extract

abbrev Entries := List (Value × Value)

/-- Bits of the seeds that are tested. -/
def legacySeedBits : Nat := 32

def maxBuckets : UInt64 := 65536

def maxGroups : UInt64 := 128

def groupSlots : Nat := 8

def arrayElements? (v : Value) : Option (List Value) :=
  match v.data with
  | .array elements => some elements
  | _ => none

def integerWord? (v : Value) : Option UInt64 :=
  match v.data with
  | .integer raw _ => some raw
  | _ => none

def structFields? (v : Value) : Option (List Text × List Value) :=
  match v.data with
  | .struct names values => some (names, values)
  | _ => none

/-- A map of entries. Their mean confidence counts three times that of the header. -/
def ofEntries (entries : Entries) (confidence : Float) : Value :=
  let sum := entries.foldl (fun sum (k, v) => sum + (k.confidence + v.confidence)) 0.0
  let mean := sum / Float.ofNat (2 * entries.length)
  .mk ((3 * mean + confidence) / 4) (.map (entries.map Prod.fst) (entries.map Prod.snd))

/-- The map of the entries that were found. A map that counts entries has some. -/
def ofFound (found : Option Entries) (confidence : Float) : Value :=
  match found with
  | none | some [] => .bad
  | some entries => ofEntries entries confidence

section Buckets

/-- A slot is taken unless its top bits are 0, 1 or 4. -/
def isTaken (topbits : Value) : Bool :=
  match integerWord? topbits with
  | some raw => raw != 0 && raw != 1 && raw != 4
  | none => false

/-- The entries of a bucket by itself, if it has the layout of a bucket. -/
def bucketEntries? (bucket : List Text × List Value) : Option Entries := do
  let field := fun name => Value.fieldOf? bucket.1 bucket.2 (utf8 name)
  let topbits ← arrayElements? (← field "topbits")
  let keys ← arrayElements? (← field "keys")
  let elements ← arrayElements? (← field "elems")
  if topbits.isEmpty ∨ keys.length ≠ topbits.length ∨ elements.length ≠ topbits.length then none
  else
    pure ((topbits.zip (keys.zip elements)).filterMap fun (top, entry) =>
      if isTaken top then some entry else none)

/-- The entries of a bucket, if it has the layout of a bucket, and after them those that are found
in its overflow bucket. An overflow bucket in which none are found only loses what would come
after. -/
def withOverflow (s : Source) (read : Reader) (type : GoType) (overflowOffset : UInt64)
    (depth : UInt32) (more : List Text × List Value → UInt64 → Reading (Option Entries))
    (bucket : List Text × List Value) (address : UInt64) : Reading (Option Entries) :=
  match bucketEntries? bucket with
  | none => pure none
  | some entries =>
    match s.readWord? (address + overflowOffset) with
    | none | some 0 => pure (some entries)
    | some next => do
      let value ← read type next (depth + 1)
      match structFields? value with
      | none => pure (some entries)
      | some fields => do
        let rest ← more fields next
        pure (some (entries ++ rest.getD []))

/-- The entries of a bucket and of at most `limit` overflow buckets after it. The overflow bucket of
the last one is read, but nothing is looked for in it. -/
def bucketChain (s : Source) (read : Reader) (type : GoType) (overflowOffset : UInt64)
    (depth : UInt32) :
    (limit : Nat) → List Text × List Value → UInt64 → Reading (Option Entries)
  | 0 => withOverflow s read type overflowOffset depth fun _ _ => pure none
  | limit + 1 =>
    withOverflow s read type overflowOffset depth
      (bucketChain s read type overflowOffset depth limit)

/-- The entries of `count` buckets from an address on. No bucket is read once there are as many
entries as the header counts. -/
def buckets (s : Source) (read : Reader) (type : GoType) (overflowOffset stride wanted : UInt64)
    (depth : UInt32) : (count : Nat) → (address : UInt64) → (found : Nat) →
      Reading (Option Entries)
  | 0, _, _ => pure (some [])
  | count + 1, address, found =>
    if wanted.toNat ≤ found then pure (some [])
    else do
      -- The bucket takes one level, so that keys and elements are read at `depth - 1`.
      let value ← read type address (depth + 1)
      match structFields? value with
      | none => pure none
      | some fields =>
        match ← bucketChain s read type overflowOffset depth s.settings.overflowDepth.toNat
          fields address with
        | none => pure none
        | some entries =>
          match ← buckets s read type overflowOffset stride wanted depth count (address + stride)
            (found + entries.length) with
          | none => pure none
          | some rest => pure (some (entries ++ rest))

def overflowOffset? (type : GoType) : Option (Option UInt64) :=
  match type.shape with
  | .struct fields =>
    some ((fields.find? fun f => f.name == utf8 "overflow").map Field.offset)
  | _ => none

/-- The map of buckets whose header lies at an address. -/
def legacyMap (s : Source) (read : Reader) (type : GoType) (address : UInt64) (depth : UInt32) :
    Reading Value :=
  let header := s.wordAt address 1
  match s.readWord? address, s.readUnsigned? (header + 1) 1, s.readUnsigned? (header + 4) 4,
    s.readWord? (header + 8) with
  | some count, some log2Buckets, some seed, some base =>
    let confidence := Confidence.ofMapSeed seed legacySeedBits
    if depth = 0 then pure (.unparsed address confidence)
    else if count = 0 then pure (.mk confidence (.map [] []))
    else
      match overflowOffset? type with
      | none => pure .bad
      | some overflow =>
        if (8 * s.pointerWidth).toUInt64 ≤ log2Buckets then pure .bad
        else
          match overflow with
          | none => do
            note (.overflowFieldMissing type.name)
            pure .bad
          | some offset => do
            let bucketCount : UInt64 := (1 : UInt64) <<< log2Buckets
            let capped : Bool := maxBuckets < bucketCount
            noteIf capped (.bucketsCapped address bucketCount maxBuckets)
            if base % type.align ≠ 0 then pure .bad
            else do
              let found ← buckets s read type offset (roundUp type.size type.align) count depth
                (min bucketCount maxBuckets).toNat base 0
              pure (ofFound found (if capped then 0.0 else confidence))
  | _, _, _, _ => pure .bad

end Buckets

section Groups

def slotEntry? (slot : Value) : Option (Value × Value) := do
  let (names, values) ← structFields? slot
  let key ← Value.fieldOf? names values (utf8 "key")
  let element ← Value.fieldOf? names values (utf8 "elem")
  pure (key, element)

def controlByte (control : UInt64) (i : Nat) : Nat := control.toNat / Nat.pow 256 i % 256

/-- The entries of a group: a slot is full where the top bit of its control byte is clear. Nothing
comes back where the value has not the layout of a group. -/
def groupEntries? (group : Value) : Option Entries := do
  let (names, values) ← structFields? group
  let control ← integerWord? (← Value.fieldOf? names values (utf8 "ctrl"))
  let slots ← arrayElements? (← Value.fieldOf? names values (utf8 "slots"))
  if slots.length ≠ groupSlots then none
  else
    (slots.zipIdx.filter fun (_, i) => controlByte control i < 128).mapM fun (slot, _) =>
      slotEntry? slot

def group (read : Reader) (type : GoType) (depth : UInt32) (address : UInt64) :
    Reading (Option Entries) := do
  -- Group, slot array and slot take one level each, so that keys and elements are read at
  -- `depth - 1`.
  let value ← read type address (depth + 2)
  pure (groupEntries? value)

def groups (read : Reader) (type : GoType) (depth : UInt32) :
    (count : Nat) → (address : UInt64) → Reading (Option Entries)
  | 0, _ => pure (some [])
  | count + 1, address => do
    match ← group read type depth address with
    | none => pure none
    | some entries =>
      match ← groups read type depth count (address + type.size) with
      | none => pure none
      | some rest => pure (some (entries ++ rest))

def table (s : Source) (read : Reader) (type : GoType) (depth : UInt32) (address : UInt64) :
    Reading (Option Entries) :=
  match s.readWord? (s.wordAt (address + 8) 1), s.readWord? (s.wordAt (address + 8) 2) with
  | some base, some mask =>
    -- A table stores the number of its groups less one.
    if maxGroups ≤ mask then do
      note (.swissTableTooLarge address (mask + 1))
      pure none
    else groups read type depth (mask.toNat + 1) base
  | _, _ => pure none

/-- The table addresses of a directory, `count` of them from a place on, as far as the bytes go. -/
def directoryEntries (data : Bytes) (pointerWidth : UInt32) :
    (count : Nat) → (index : UInt64) → List UInt64
  | 0, _ => []
  | count + 1, index =>
    match data.read? (index * pointerWidth.toUInt64) pointerWidth.toNat with
    | none => []
    | some address => address :: directoryEntries data pointerWidth count (index + 1)

/-- The addresses at their first appearance. -/
def distinct : (seen : Std.TreeSet UInt64) → List UInt64 → List UInt64
  | _, [] => []
  | seen, a :: rest =>
    if seen.contains a then distinct seen rest else a :: distinct (seen.insert a) rest

def tables (s : Source) (read : Reader) (type : GoType) (depth : UInt32) :
    List UInt64 → Reading (Option Entries)
  | [] => pure (some [])
  | address :: rest => do
    match ← table s read type depth address with
    | none => pure none
    | some entries =>
      match ← tables s read type depth rest with
      | none => pure none
      | some others => pure (some (entries ++ others))

/-- The bytes that a directory of a length takes, as 64-bit arithmetic gives them. -/
def directoryBytes (s : Source) (length : UInt64) : UInt64 := length * s.pointerWidth.toUInt64

/-- The entries of a directory of tables. Tables that were split share slots of the directory, and
each is read once. A slot that the bytes do not hold has no table, which is found out when the
tables before it have been read. -/
def directory (s : Source) (read : Reader) (type : GoType) (depth : UInt32)
    (base length : UInt64) : Reading (Option Entries) :=
  match s.readBytes? base (directoryBytes s length) with
  | none => pure none
  | some data => do
    let addresses := directoryEntries data s.pointerWidth length.toNat 0
    let found ← tables s read type depth (distinct ∅ addresses)
    pure (if addresses.length = length.toNat then found else none)

def swissSeedBits (s : Source) : Nat := if s.pointerWidth = 4 then 32 else 64

/-- The map of groups whose header lies at an address. A directory that is too long is read in part,
which costs the header all confidence. -/
def swissMap (s : Source) (read : Reader) (type : GoType) (address : UInt64) (depth : UInt32) :
    Reading Value :=
  match s.readUnsigned? address 8, s.readWord? (address + 8),
    s.readWord? (s.wordAt (address + 8) 1), s.readWord? (s.wordAt (address + 8) 2) with
  | some length, some seed, some base, some directoryLength =>
    let confidence := Confidence.ofMapSeed seed (swissSeedBits s)
    if depth = 0 then pure (.unparsed address confidence)
    else if length = 0 then pure (.mk confidence (.map [] []))
    else if directoryLength = 0 then do
      let found ← group read type depth base
      pure (ofFound found confidence)
    else do
      let cap := s.settings.swissDirectoryCap
      let capped : Bool := cap < directoryLength
      noteIf capped (.directoryCapped address directoryLength cap)
      let found ← directory s read type depth base (min directoryLength cap)
      pure (ofFound found (if capped then 0.0 else confidence))
  | _, _, _, _ => pure .bad

end Groups

end Extract

end GoInspect
