import GoInspect.Proofs.Extract.BucketEntries
import GoInspect.Proofs.Extract.LegacyMap
import GoInspect.Proofs.Extract.Steps

/-!
# Chains of overflow buckets

A bucket of a map may link to an overflow bucket, which may link to another one. Memory may say
anything there: a link that leads nowhere, to what is no bucket, or back to a bucket of the chain.
`Walk` follows the links from one bucket to the next one. What is found for a bucket are its own
entries and those along the longest walk that is allowed; whatever lies behind that walk costs
nothing that was found before, neither in the bucket nor in the map.
-/

namespace GoInspect

namespace Extract

variable (s : Source) (read : Reader) (type : GoType) (overflowOffset : UInt64) (depth : UInt32)

/-- The overflow bucket that the bucket at an address links to. -/
def link? (address : UInt64) : Option UInt64 :=
  (s.readWord? (address + overflowOffset)).filter (· ≠ 0)

/-- Links are followed from the bucket at an address, one after another, to buckets with these
entries. Reading them takes one trace to another one. -/
inductive Walk : (address : UInt64) → Trace → List Entries → (last : UInt64) → Trace → Prop where
  | stay (address : UInt64) (trace : Trace) : Walk address trace [] address trace
  | follow {address next last : UInt64} {trace between trace' : Trace} {value : Value}
      {entries : Entries} {rest : List Entries} : link? s overflowOffset address = some next →
      read type next (depth + 1) trace = some (value, between) →
      BucketEntries value entries → Walk next between rest last trace' →
      Walk address trace (entries :: rest) last trace'

/-- No entries are found behind the bucket at an address: it has no link, or its link leads to what
is not a bucket, or no more links are to be followed. -/
inductive Ends (spent : Prop) (address : UInt64) (trace : Trace) : Trace → Prop where
  | noLink : link? s overflowOffset address = none → Ends spent address trace trace
  | noBucket {next : UInt64} {value : Value} {trace' : Trace} :
      link? s overflowOffset address = some next →
      read type next (depth + 1) trace = some (value, trace') →
      spent ∨ NoBucket value → Ends spent address trace trace'

/-- The overflow buckets of the bucket at an address, as far as their links can be followed and at
most `limit` of them, have these entries. -/
def Chain (limit : Nat) (address : UInt64) (trace : Trace) (rest : List Entries) (trace' : Trace) :
    Prop :=
  ∃ last between, Walk s read type overflowOffset depth address trace rest last between ∧
    rest.length ≤ limit ∧
      Ends s read type overflowOffset depth (rest.length = limit) last between trace'

/-- All buckets that are read come to a value: those that are reached by at most `limit` links, and
the one behind them. -/
def Returns (limit : Nat) (address : UInt64) (trace : Trace) : Prop :=
  ∀ rest last between, Walk s read type overflowOffset depth address trace rest last between →
    rest.length ≤ limit → ∀ next, link? s overflowOffset last = some next →
      (read type next (depth + 1) between).isSome

variable {s read type overflowOffset depth}

section Steps

variable {limit : Nat} {bucket : List Text × List Value} {address next : UInt64} {entries : Entries}
  {trace between trace' : Trace} {value : Value}
  {more : List Text × List Value → UInt64 → Reading (Option Entries)}

theorem withOverflow_of_link?_eq_none (main : HasEntries bucket entries)
    (h : link? s overflowOffset address = none) :
    withOverflow s read type overflowOffset depth more bucket address = pure (some entries) := by
  rw [link?, Option.filter_eq_none_iff] at h
  rw [withOverflow, bucketEntries?_eq_some_iff.mpr main]
  dsimp only
  split
  · rfl
  · rfl
  · next next nonzero word =>
    have zero := h next word
    rw [decide_eq_true_eq, not_not] at zero
    exact absurd zero nonzero

theorem withOverflow_of_link? (main : HasEntries bucket entries)
    (h : link? s overflowOffset address = some next) :
    withOverflow s read type overflowOffset depth more bucket address =
      (do
        let value ← read type next (depth + 1)
        match structFields? value with
        | none => pure (some entries)
        | some fields => do
          let rest ← more fields next
          pure (some (entries ++ rest.getD []))) := by
  obtain ⟨word, nonzero⟩ := Option.filter_eq_some_iff.mp h
  exact withOverflow_of_next (bucketEntries?_eq_some_iff.mpr main) word (of_decide_eq_true nonzero)

variable (s read type overflowOffset depth limit) in
/-- Whether or not links are to be followed, the links of a bucket are where the search begins. -/
theorem bucketChain_eq_withOverflow : ∃ more,
    bucketChain s read type overflowOffset depth limit =
      withOverflow s read type overflowOffset depth more ∧
    ∀ fields next, (limit = 0 ∨ bucketEntries? fields = none) → more fields next = pure none := by
  cases limit with
  | zero => exact ⟨_, rfl, fun _ _ _ => rfl⟩
  | succ limit =>
      refine ⟨_, rfl, fun fields next spoiled => ?_⟩
      obtain zero | none := spoiled
      · cases zero
      · cases limit <;> rw [bucketChain, withOverflow, none]

theorem bucketChain_of_noLink (main : HasEntries bucket entries)
    (h : link? s overflowOffset address = none) :
    bucketChain s read type overflowOffset depth limit bucket address trace =
      some (some entries, trace) := by
  obtain ⟨more, eq, _⟩ := bucketChain_eq_withOverflow s read type overflowOffset depth limit
  rw [eq, withOverflow_of_link?_eq_none main h]
  rfl

theorem bucketChain_of_stuck (main : HasEntries bucket entries)
    (h : link? s overflowOffset address = some next)
    (stuck : read type next (depth + 1) trace = none) :
    bucketChain s read type overflowOffset depth limit bucket address trace = none := by
  obtain ⟨more, eq, _⟩ := bucketChain_eq_withOverflow s read type overflowOffset depth limit
  rw [eq, withOverflow_of_link? main h, bind_of_none stuck]

/-- What is no bucket, or is one too many, is read and has no entries. -/
theorem bucketChain_of_noBucket (main : HasEntries bucket entries)
    (h : link? s overflowOffset address = some next)
    (come : read type next (depth + 1) trace = some (value, trace'))
    (spoiled : limit = 0 ∨ NoBucket value) :
    bucketChain s read type overflowOffset depth limit bucket address trace =
      some (some entries, trace') := by
  obtain ⟨more, eq, nothing⟩ := bucketChain_eq_withOverflow s read type overflowOffset depth limit
  rw [eq, withOverflow_of_link? main h, bind_of_some come]
  cases fields : structFields? value with
  | none => rfl
  | some found =>
      have none : limit = 0 ∨ bucketEntries? found = none :=
        spoiled.imp_right fun noBucket => noBucket.bucketEntries? fields
      show (more found next >>= _) trace' = _
      rw [nothing found next none]
      show some (some (entries ++ []), trace') = _
      rw [List.append_nil]

/-- The entries of an overflow bucket, and of the chain that it begins, come after those before. -/
theorem bucketChain_of_bucket {fields : List Text × List Value}
    (main : HasEntries bucket entries)
    (h : link? s overflowOffset address = some next)
    (come : read type next (depth + 1) trace = some (value, between))
    (found : structFields? value = some fields) :
    bucketChain s read type overflowOffset depth (limit + 1) bucket address trace =
      (bucketChain s read type overflowOffset depth limit fields next between).map
        fun (rest, trace') => (some (entries ++ rest.getD []), trace') := by
  rw [bucketChain, withOverflow_of_link? main h, bind_of_some come, found]
  show (bucketChain s read type overflowOffset depth limit fields next between).bind _ = _
  cases bucketChain s read type overflowOffset depth limit fields next between <;> rfl

end Steps

section Chains

variable {limit : Nat} {bucket : List Text × List Value} {address next : UInt64}
  {entries others : Entries} {rest : List Entries} {trace between trace' : Trace} {value : Value}

theorem Chain.ends
    (h : Ends s read type overflowOffset depth (0 = limit) address trace trace') :
    Chain s read type overflowOffset depth limit address trace [] trace' :=
  ⟨address, trace, .stay address trace, Nat.zero_le limit, h⟩

theorem Chain.follow (h : link? s overflowOffset address = some next)
    (come : read type next (depth + 1) trace = some (value, between))
    (found : BucketEntries value others)
    (chain : Chain s read type overflowOffset depth limit next between rest trace') :
    Chain s read type overflowOffset depth (limit + 1) address trace (others :: rest) trace' := by
  obtain ⟨last, final, walk, few, ends⟩ := chain
  refine ⟨last, final, .follow h come found walk, Nat.succ_le_succ few, ?_⟩
  rwa [List.length_cons, Nat.add_right_cancel_iff]

theorem Returns.follow (h : Returns s read type overflowOffset depth (limit + 1) address trace)
    (link : link? s overflowOffset address = some next)
    (come : read type next (depth + 1) trace = some (value, between))
    (found : BucketEntries value others) :
    Returns s read type overflowOffset depth limit next between :=
  fun rest last final walk few =>
    h (others :: rest) last final (.follow link come found walk) (Nat.succ_le_succ few)

/-- What is found for a bucket: its own entries, and those of its overflow buckets. -/
theorem bucketChain_of_chain (main : HasEntries bucket entries)
    (chain : Chain s read type overflowOffset depth limit address trace rest trace') :
    bucketChain s read type overflowOffset depth limit bucket address trace =
      some (some (entries ++ rest.flatten), trace') := by
  obtain ⟨last, final, walk, few, ends⟩ := chain
  induction walk generalizing limit bucket entries with
  | stay address trace =>
      rw [List.flatten_nil, List.append_nil]
      cases ends with
      | noLink none => exact bucketChain_of_noLink main none
      | noBucket link come spoiled =>
          exact bucketChain_of_noBucket main link come (spoiled.imp_left Eq.symm)
  | @follow address next last trace between final value others rest link come found walk ih =>
      obtain ⟨limit, rfl⟩ := Nat.exists_eq_add_of_le' (Nat.le_of_add_left_le few)
      obtain ⟨fields, struct, layout⟩ := found
      rw [List.length_cons, Nat.add_right_cancel_iff] at ends
      have behind := ih layout (Nat.le_of_succ_le_succ few) ends
      rw [bucketChain_of_bucket main link come (structFields?_eq_some_iff.mpr struct), behind]
      rfl

/-- Where all reading comes to values, links are followed until something ends the search. -/
theorem Returns.exists_chain
    (returns : Returns s read type overflowOffset depth limit address trace) :
    ∃ rest trace', Chain s read type overflowOffset depth limit address trace rest trace' := by
  induction limit generalizing address trace with
  | zero =>
      cases link : link? s overflowOffset address with
      | none => exact ⟨[], trace, .ends (.noLink link)⟩
      | some next =>
          have come := returns [] address trace (.stay address trace) (Nat.zero_le 0) next link
          obtain ⟨⟨value, trace'⟩, come⟩ := Option.isSome_iff_exists.mp come
          exact ⟨[], trace', .ends (.noBucket link come (.inl rfl))⟩
  | succ limit ih =>
      cases link : link? s overflowOffset address with
      | none => exact ⟨[], trace, .ends (.noLink link)⟩
      | some next =>
          have come := returns [] address trace (.stay address trace) (Nat.zero_le _) next link
          obtain ⟨⟨value, trace'⟩, come⟩ := Option.isSome_iff_exists.mp come
          by_cases bucket : ∃ others, BucketEntries value others
          · obtain ⟨others, found⟩ := bucket
            obtain ⟨rest, trace'', chain⟩ := ih (returns.follow link come found)
            exact ⟨others :: rest, trace'', .follow link come found chain⟩
          · exact ⟨[], trace', .ends (.noBucket link come (.inr (not_exists.mp bucket)))⟩

/-- A bucket is searched to the end exactly if all buckets that are read on the way are. -/
theorem isSome_bucketChain_iff (main : HasEntries bucket entries) :
    (bucketChain s read type overflowOffset depth limit bucket address trace).isSome ↔
      Returns s read type overflowOffset depth limit address trace := by
  constructor
  · intro come rest last final walk few next link
    induction walk generalizing limit bucket entries with
    | stay address trace =>
        by_contra stuck
        rw [bucketChain_of_stuck main link (Option.not_isSome_iff_eq_none.mp stuck)] at come
        cases come
    | @follow address next' last trace between final value others rest link' here found walk ih =>
        obtain ⟨limit, rfl⟩ := Nat.exists_eq_add_of_le' (Nat.le_of_add_left_le few)
        obtain ⟨fields, struct, layout⟩ := found
        have struct := structFields?_eq_some_iff.mpr struct
        rw [bucketChain_of_bucket main link' here struct, Option.isSome_map] at come
        exact ih layout come (Nat.le_of_succ_le_succ few) link
  · intro returns
    obtain ⟨rest, trace', chain⟩ := returns.exists_chain
    rw [bucketChain_of_chain main chain]
    rfl

theorem bucketChain_eq_some_iff (main : HasEntries bucket entries)
    {found : Option Entries} :
    bucketChain s read type overflowOffset depth limit bucket address trace =
        some (found, trace') ↔
      ∃ rest, Chain s read type overflowOffset depth limit address trace rest trace' ∧
        found = some (entries ++ rest.flatten) := by
  constructor
  · intro come
    have returns := (isSome_bucketChain_iff main).mp (Option.isSome_of_eq_some come)
    obtain ⟨rest, final, chain⟩ := returns.exists_chain
    rw [bucketChain_of_chain main chain] at come
    cases come
    exact ⟨rest, chain, rfl⟩
  · rintro ⟨rest, chain, rfl⟩
    exact bucketChain_of_chain main chain

theorem bucketChain_of_malformed (spoiled : bucketEntries? bucket = none) :
    bucketChain s read type overflowOffset depth limit bucket address trace =
      some (none, trace) := by
  cases limit <;> rw [bucketChain, withOverflow, spoiled] <;> rfl

end Chains

section Rows

variable (s read type overflowOffset depth) (stride wanted : UInt64)

/-- The buckets of a map from an address on, each with its overflow buckets, as long as entries are
wanted. Only a bucket of the map itself that is none spoils them. -/
inductive Rows : (count : Nat) → (address : UInt64) → (found : Nat) → Trace →
    Option (List (List Entries)) → Trace → Prop where
  | done {count : Nat} {address : UInt64} {found : Nat} (trace : Trace) :
      count = 0 ∨ wanted.toNat ≤ found → Rows count address found trace (some []) trace
  | malformed {count : Nat} {address : UInt64} {found : Nat} {value : Value}
      {trace trace' : Trace} : found < wanted.toNat →
      read type address (depth + 1) trace = some (value, trace') → NoBucket value →
      Rows (count + 1) address found trace none trace'
  | row {count : Nat} {address : UInt64} {found : Nat} {value : Value} {entries : Entries}
      {rest : List Entries} {others : Option (List (List Entries))}
      {trace between after trace' : Trace} : found < wanted.toNat →
      read type address (depth + 1) trace = some (value, between) →
      BucketEntries value entries →
      Chain s read type overflowOffset depth s.settings.overflowDepth.toNat address between rest
        after →
      Rows count (address + stride) (found + (entries ++ rest.flatten).length) after others
        trace' →
      Rows (count + 1) address found trace (others.map ((entries :: rest) :: ·)) trace'

variable {s read type overflowOffset depth stride wanted}

variable {count : Nat} {address : UInt64} {found : Nat} {trace between after trace' : Trace}
  {value : Value} {entries : Entries} {rest : List Entries}

theorem buckets_of_enough (enough : count = 0 ∨ wanted.toNat ≤ found) :
    buckets s read type overflowOffset stride wanted depth count address found =
      pure (some []) := by
  cases count with
  | zero => rfl
  | succ count => rw [buckets, if_pos (enough.resolve_left (Nat.succ_ne_zero count))]

theorem buckets_of_malformed (wants : found < wanted.toNat)
    (come : read type address (depth + 1) trace = some (value, trace'))
    (spoiled : NoBucket value) :
    buckets s read type overflowOffset stride wanted depth (count + 1) address found trace =
      some (none, trace') := by
  rw [buckets, if_neg (Nat.not_le.mpr wants), bind_of_some come]
  cases fields : structFields? value with
  | none => rfl
  | some bucket => exact bind_of_some (bucketChain_of_malformed (spoiled.bucketEntries? fields))

/-- The entries of a bucket and of its chain come before those of the other buckets. -/
theorem buckets_of_row (wants : found < wanted.toNat)
    (come : read type address (depth + 1) trace = some (value, between))
    (taken : BucketEntries value entries)
    (chain : Chain s read type overflowOffset depth s.settings.overflowDepth.toNat address between
      rest after) :
    buckets s read type overflowOffset stride wanted depth (count + 1) address found trace =
      (buckets s read type overflowOffset stride wanted depth count (address + stride)
        (found + (entries ++ rest.flatten).length) after).map fun (others, trace') =>
          (others.map ((entries ++ rest.flatten) ++ ·), trace') := by
  obtain ⟨bucket, struct, main⟩ := taken
  rw [buckets, if_neg (Nat.not_le.mpr wants), bind_of_some come,
    structFields?_eq_some_iff.mpr struct]
  refine (bind_of_some (bucketChain_of_chain main chain)).trans ?_
  show (buckets s read type overflowOffset stride wanted depth count (address + stride)
    (found + (entries ++ rest.flatten).length) after).bind _ = _
  cases buckets s read type overflowOffset stride wanted depth count (address + stride)
      (found + (entries ++ rest.flatten).length) after with
  | none => rfl
  | some outcome =>
      obtain ⟨others, trace'⟩ := outcome
      cases others <;> rfl

theorem buckets_of_rows {rows : Option (List (List Entries))}
    (h : Rows s read type overflowOffset depth stride wanted count address found trace rows
      trace') :
    buckets s read type overflowOffset stride wanted depth count address found trace =
      some (rows.map fun rows => rows.flatten.flatten, trace') := by
  induction h with
  | done trace enough => rw [buckets_of_enough enough]; rfl
  | malformed wants come spoiled => exact buckets_of_malformed wants come spoiled
  | @row count address found value entries rest others _ _ _ _ wants come taken chain _ ih =>
      rw [buckets_of_row wants come taken chain, ih]
      cases others with
      | none => rfl
      | some rows =>
          have flat : ((entries :: rest) :: rows).flatten.flatten =
              entries ++ rest.flatten ++ rows.flatten.flatten := by
            rw [List.flatten_cons, List.flatten_append, List.flatten_cons]
          exact congrArg (fun all => some (some all, _)) flat.symm

theorem exists_rows {outcome : Option Entries × Trace}
    (h : buckets s read type overflowOffset stride wanted depth count address found trace =
      some outcome) :
    ∃ rows trace', Rows s read type overflowOffset depth stride wanted count address found trace
      rows trace' := by
  induction count generalizing address found trace outcome with
  | zero => exact ⟨_, _, .done trace (.inl rfl)⟩
  | succ count ih =>
      by_cases enough : wanted.toNat ≤ found
      · exact ⟨_, _, .done trace (.inr enough)⟩
      have wants := Nat.lt_of_not_le enough
      have steps := h
      rw [buckets, if_neg enough] at steps
      obtain ⟨value, between, come, later⟩ := bind_eq_some_iff.mp steps
      by_cases bucket : ∃ entries, BucketEntries value entries
      · obtain ⟨entries, taken⟩ := bucket
        obtain ⟨fields, struct, main⟩ := id taken
        rw [structFields?_eq_some_iff.mpr struct] at later
        obtain ⟨here, after, searched, _⟩ := bind_eq_some_iff.mp later
        obtain ⟨rest, chain, _⟩ := (bucketChain_eq_some_iff main).mp searched
        rw [buckets_of_row wants come taken chain, Option.map_eq_some_iff] at h
        obtain ⟨behind, read, _⟩ := h
        obtain ⟨rows, trace', others⟩ := ih read
        exact ⟨_, _, .row wants come taken chain others⟩
      · exact ⟨_, _, .malformed wants come (not_exists.mp bucket)⟩

/-- The entries of the buckets of a map. -/
theorem buckets_eq_some_iff {outcome : Option Entries} :
    buckets s read type overflowOffset stride wanted depth count address found trace =
        some (outcome, trace') ↔
      ∃ rows, Rows s read type overflowOffset depth stride wanted count address found trace rows
          trace' ∧ outcome = rows.map fun rows => rows.flatten.flatten := by
  constructor
  · intro h
    obtain ⟨rows, final, others⟩ := exists_rows h
    rw [buckets_of_rows others] at h
    cases h
    exact ⟨rows, others, rfl⟩
  · rintro ⟨rows, others, rfl⟩
    exact buckets_of_rows others

end Rows

/-- What is malformed behind a bucket costs no other entries. If all buckets that are reached by at
most so many links come to values, then so does the search for the entries of a bucket: these are
its own, and those along the chain of its links, in their order, up to the first link that is zero
or cannot be read or leads to what is no bucket, and no more buckets than links are followed. The
entries of a map are those of its buckets, each with its chain, wherever the chains end. -/
theorem bucketChain_keepsEntries {s : Source} {read : Reader} {type : GoType}
    {overflowOffset address : UInt64} {depth : UInt32} {limit : Nat}
    {bucket : List Text × List Value} {entries : Entries} {trace : Trace}
    (main : HasEntries bucket entries)
    (returns : Returns s read type overflowOffset depth limit address trace) :
    (∃ rest trace', Chain s read type overflowOffset depth limit address trace rest trace') ∧
    (∀ rest trace', Chain s read type overflowOffset depth limit address trace rest trace' →
      bucketChain s read type overflowOffset depth limit bucket address trace =
        some (some (entries ++ rest.flatten), trace')) ∧
    ∀ stride wanted count first found before outcome after,
      buckets s read type overflowOffset stride wanted depth count first found before =
          some (outcome, after) ↔
        ∃ rows, Rows s read type overflowOffset depth stride wanted count first found before rows
            after ∧ outcome = rows.map fun rows => rows.flatten.flatten := by
  refine ⟨returns.exists_chain, ?_, ?_⟩
  · intro rest trace' chain
    exact bucketChain_of_chain main chain
  · intro stride wanted count first found before outcome after
    exact buckets_eq_some_iff

section Sample

open TypeSyntax TypeTerm LegacyMap

variable {s : Source} {version : VersionBound} {address n : Nat} {depth : UInt32}
  {k v : IntegerKind} {type : GoType}

theorem within_unreadable_byte (unread : s.readUnsigned? (UInt64.ofNat address) 1 = none)
    (denotes : Denotes s.graph version s.pointerWidth uint8 type) :
    within s (n + 1) type (UInt64.ofNat address) depth = pure .bad := by
  cases denotes with
  | basic heads shape =>
      show step s (within s n) type _ depth = _
      rw [step, shape]
      show pure (integer s (UInt64.ofNat address) 1 false) = _
      rw [integer, unread]

theorem within_unreadable_bytes (unread : s.readUnsigned? (UInt64.ofNat address) 1 = none)
    (deep : depth ≠ 0) (denotes : Denotes s.graph version s.pointerWidth (.array 8 uint8) type) :
    within s (n + 2) type (UInt64.ofNat address) depth = pure .bad := by
  cases denotes with
  | array heads shape eight known denotes =>
      show step s (within s (n + 1)) type _ depth = _
      rw [step, shape]
      dsimp only
      rw [known]
      dsimp only
      rw [arrayOf, if_neg deep, eight]
      split
      · dsimp only
        rw [elements, within_unreadable_byte unread denotes]
        rfl
      · rfl

/-- Where the first byte cannot be read there is no bucket. -/
theorem within_unreadable_bucket (wide : s.pointerWidth = 4 ∨ s.pointerWidth = 8)
    (unread : s.readUnsigned? (UInt64.ofNat address) 1 = none)
    (old : version.swissMaps = false) (deep : depth ≠ 0) (next : depth + 1 ≠ 0)
    (denotes : Denotes s.graph version s.pointerWidth (TypeTerm.bucket version k.term v.term)
      type) :
    within s (n + 3) type (UInt64.ofNat address) (depth + 1) = pure .bad := by
  rw [bucket_of_old old, legacyFields] at denotes
  cases denotes with
  | struct heads shape fields =>
      cases fields with
      | cons known first _ =>
          show step s (within s (n + 2)) type _ (depth + 1) = _
          rw [step, shape]
          dsimp only
          rw [struct, if_neg next, UInt32.add_sub_cancel]
          dsimp only [List.isEmpty_cons]
          rw [if_neg (by decide), Extract.fields, known]
          dsimp only
          have array := within_unreadable_bytes (n := n) unread deep first
          have start : UInt64.ofNat address + UInt64.ofNat 0 = UInt64.ofNat address :=
            UInt64.add_zero _
          rw [place_tops wide, start, array]
          rfl

theorem noBucket_bad : NoBucket .bad := by
  rintro entries ⟨fields, struct, _⟩
  cases struct

/-- Wherever buckets of a set lead to, the search stays in it and all reading comes to values. -/
theorem Returns.of_closed {s : Source} {read : Reader} {type : GoType}
    {overflowOffset address : UInt64} {depth : UInt32} {limit : Nat} {trace : Trace}
    (inside : UInt64 → Prop) (start : inside address)
    (leads : ∀ a next trace, inside a → link? s overflowOffset a = some next →
      ∃ value trace', read type next (depth + 1) trace = some (value, trace') ∧
        (NoBucket value ∨ inside next)) :
    Returns s read type overflowOffset depth limit address trace := by
  intro rest last between walk few next link
  have stays : inside last := by
    clear few link
    induction walk with
    | stay => exact start
    | @follow address next _ trace _ _ value entries _ link come found _ ih =>
        obtain ⟨_, _, come', spoiled | inside⟩ := leads address next trace start link
        · cases come.symm.trans come'
          exact absurd found (spoiled entries)
        · exact ih inside
  obtain ⟨_, _, come, _⟩ := leads last next between stays link
  exact Option.isSome_of_eq_some come

/-- Three buckets. The first one links to the second one, which links to where nothing can be read,
and the third one links to itself. -/
def damagedBlock : Bytes :=
  (bucketBytes sampleMain 0x1020 ++ bucketBytes sampleOverflow 0x9000 ++
    bucketBytes sampleMain 0x1040).toArray

def damaged : Source where
  memory := (MappedMemory.map ⟨∅, 0⟩ 0x1000 damagedBlock).toMemory
  pointerWidth := 8
  graph := .empty
  settings := { overflowDepth := 2 }

/-- The place of the links in the buckets. -/
def damagedLink : UInt64 := UInt64.ofNat (linkPlace damaged.pointerWidth byte byte)

theorem bucketAt_damaged {bucket : Bucket 8 byte byte} {link : Nat} (place : Nat)
    (aligned : 8 ∣ place) (holds : damagedBlock.Holds place (bucketBytes bucket link)) :
    BucketAt damaged bucket (0x1000 + place) link := by
  have shown : damaged.memory.Shows (UInt64.ofNat 0x1000) damagedBlock :=
    MappedMemory.shows_map (by decide)
  have inside : 0x1000 + damagedBlock.size ≤ 2 ^ (8 * damaged.pointerWidth.toNat) := by decide
  have start : 8 ∣ 0x1000 + place := Nat.dvd_add (by decide) aligned
  exact bucketAt_of_shows (.inr rfl) inside (by decide) shown start holds

theorem bucketAt_first : BucketAt damaged sampleMain 0x1000 0x1020 :=
  bucketAt_damaged 0 (by decide) (by decide)

theorem bucketAt_second : BucketAt damaged sampleOverflow 0x1020 0x9000 :=
  bucketAt_damaged 0x20 (by decide) (by decide)

theorem bucketAt_third : BucketAt damaged sampleMain 0x1040 0x1040 :=
  bucketAt_damaged 0x40 (by decide) (by decide)

theorem link?_damaged {bucket : Bucket 8 byte byte} {address link : Nat}
    (h : BucketAt damaged bucket address link) (fits : link < 2 ^ 64)
    (nonzero : UInt64.ofNat link ≠ 0) :
    link? damaged damagedLink (UInt64.ofNat address) = some (UInt64.ofNat link) :=
  Option.filter_eq_some_iff.mpr ⟨readWord?_link (.inr rfl) h fits, decide_eq_true nonzero⟩

/-- The bucket at an address is read, and these entries are found for it and its chain. -/
def Recovers (type : GoType) (address : UInt64) (expected : List (Entry 8 byte byte)) : Prop :=
  ∃ value fields entries found trace,
    within damaged (limit - 1) type address 2 {} = some (value, {}) ∧
    value.data = .struct fields.1 fields.2 ∧ HasEntries fields entries ∧
    Returns damaged (within damaged (limit - 1)) type damagedLink 1 2 address {} ∧
    bucketChain damaged (within damaged (limit - 1)) type damagedLink 1 2 fields address {} =
      some (some found, trace) ∧ List.Forall₂ (ShowsEntry 8) expected found

section

variable (denotes : Denotes damaged.graph ⟨20, 20⟩ damaged.pointerWidth
  (TypeTerm.bucket ⟨20, 20⟩ byte.term byte.term) type)

include denotes

theorem reads_damaged {bucket : Bucket 8 byte byte} {link : Nat}
    (there : BucketAt damaged bucket address link) (fits : link < 2 ^ 64) (trace : Trace) :
    ∃ value entries, within damaged (limit - 1) type (UInt64.ofNat address) 2 trace =
      some (value, trace) ∧ BucketEntries value entries ∧
        List.Forall₂ (ShowsEntry 8) bucket.entries entries := by
  have each : ReadsBuckets damaged byte byte (within damaged (limit - 1)) type 1 :=
    reads_buckets (n := limit - 4) (.inr rfl) rfl (by decide) (by decide) denotes
  obtain ⟨value, come, fields, struct, entries, layout, shown⟩ := each there fits trace
  exact ⟨value, entries, come, ⟨fields, structFields?_eq_some_iff.mp struct,
    bucketEntries?_eq_some_iff.mp layout⟩, shown⟩

theorem reads_nowhere (trace : Trace) :
    within damaged (limit - 1) type 0x9000 2 trace = some (.bad, trace) := by
  have unread : damaged.readUnsigned? (UInt64.ofNat 0x9000) 1 = none := by decide
  have nothing := within_unreadable_bucket (n := limit - 4) (.inr rfl) unread rfl
    (by decide : (1 : UInt32) ≠ 0) (by decide) denotes
  exact congrFun nothing trace

theorem returns_damaged {a : UInt64} (start : a = 0x1000 ∨ a = 0x1020 ∨ a = 0x1040) :
    Returns damaged (within damaged (limit - 1)) type damagedLink 1 2 a {} := by
  refine .of_closed (fun a => a = 0x1000 ∨ a = 0x1020 ∨ a = 0x1040) start ?_
  rintro a next trace (rfl | rfl | rfl) link
  · cases (link?_damaged bucketAt_first (by decide) (by decide)).symm.trans link
    obtain ⟨value, _, come, _⟩ := reads_damaged denotes bucketAt_second (by decide) trace
    exact ⟨value, trace, come, .inr (.inr (.inl rfl))⟩
  · cases (link?_damaged bucketAt_second (by decide) (by decide)).symm.trans link
    exact ⟨.bad, trace, reads_nowhere denotes trace, .inl noBucket_bad⟩
  · cases (link?_damaged bucketAt_third (by decide) (by decide)).symm.trans link
    obtain ⟨value, _, come, _⟩ := reads_damaged denotes bucketAt_third (by decide) trace
    exact ⟨value, trace, come, .inr (.inr (.inr rfl))⟩

end

/-- The entries of the first chain are those in front of the link that leads nowhere, and the bucket
that links to itself is found once by itself and once for every link that is followed. -/
theorem bucketChain_keepsEntries_damaged : ∃ type,
    Denotes damaged.graph ⟨20, 20⟩ damaged.pointerWidth
      (TypeTerm.bucket ⟨20, 20⟩ byte.term byte.term) type ∧
    Recovers type 0x1000 [(1#8, 10#8), (2#8, 20#8)] ∧
    Recovers type 0x1040 [(1#8, 10#8), (1#8, 10#8), (1#8, 10#8)] := by
  have faithful : Faithful damaged.graph ⟨20, 20⟩ damaged.pointerWidth (.map byte.term byte.term) :=
    faithful_empty _
  obtain ⟨_, type, _, denotes, _⟩ := exists_mapReader (.inr rfl) faithful
  refine ⟨type, denotes, ?_, ?_⟩
  · obtain ⟨value, entries, come, ⟨fields, struct, main⟩, shown⟩ :=
      reads_damaged denotes bucketAt_first (by decide) {}
    obtain ⟨value', others, come', layout, shown'⟩ :=
      reads_damaged denotes bucketAt_second (by decide) {}
    have link : link? damaged damagedLink 0x1000 = some 0x1020 :=
      link?_damaged bucketAt_first (by decide) (by decide)
    have lost : link? damaged damagedLink 0x1020 = some 0x9000 :=
      link?_damaged bucketAt_second (by decide) (by decide)
    have chain : Chain damaged (within damaged (limit - 1)) type damagedLink 1 2 0x1000 {}
        [others] {} :=
      .follow link come' layout
        (.ends (.noBucket lost (reads_nowhere denotes {}) (.inr noBucket_bad)))
    have returns := returns_damaged denotes (a := 0x1000) (.inl rfl)
    obtain ⟨-, found, -⟩ := bucketChain_keepsEntries main returns
    exact ⟨value, fields, entries, _, _, come, struct, main, returns, found _ _ chain,
      List.rel_append shown (List.rel_append shown' .nil)⟩
  · obtain ⟨value, entries, come, ⟨fields, struct, main⟩, shown⟩ :=
      reads_damaged denotes bucketAt_third (by decide) {}
    have link : link? damaged damagedLink 0x1040 = some 0x1040 :=
      link?_damaged bucketAt_third (by decide) (by decide)
    have layout : BucketEntries value entries := ⟨fields, struct, main⟩
    have chain : Chain damaged (within damaged (limit - 1)) type damagedLink 1 2 0x1040 {}
        [entries, entries] {} :=
      .follow link come layout (.follow link come layout (.ends (.noBucket link come (.inl rfl))))
    have returns := returns_damaged denotes (a := 0x1040) (.inr (.inr rfl))
    obtain ⟨-, found, -⟩ := bucketChain_keepsEntries main returns
    exact ⟨value, fields, entries, _, _, come, struct, main, returns, found _ _ chain,
      List.rel_append shown (List.rel_append shown (List.rel_append shown .nil))⟩

end Sample

end Extract

end GoInspect
