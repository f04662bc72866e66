import GoInspect.Proofs.Extract.Depth
import GoInspect.Proofs.Extract.LegacyMap
import GoInspect.Proofs.Extract.Steps
import GoInspect.Proofs.Extract.SwissMap

/-!
# Maps and the depth they are read to

A map raises the depth by the levels that its buckets or groups use up, so that its entries are read
as deep as the map was asked for. The depth is a number of 32 bits. Where raising it does not wrap
around, a map of integers is the same to every depth but zero. Where it does, the entries are out of
reach, and all maps but empty ones are lost.
-/

namespace GoInspect

open TypeSyntax TypeTerm

namespace Extract

/-- The levels that a map adds to the depth for its buckets or groups. -/
def addedLevels (version : VersionBound) : Nat := if version.swissMaps then 2 else 1

/-- What reading a map comes to at all depths but zero: one outcome, a map or nothing, as long as
the levels can be added to the depth. Beyond, a map with entries is bad. -/
structure OneOutcome (levels : Nat) (p : UInt32 → Reading Value) (trace : Trace) (value : Value)
    (after : Trace) : Prop where
  map : value = .bad ∨ ∃ keys elems, value.data = .map keys elems
  below : ∀ depth, depth ≠ 0 → depth.toNat + levels < 2 ^ 32 → p depth trace = some (value, after)
  empty : value.data = .map [] [] → ∀ depth, depth ≠ 0 → p depth trace = some (value, after)
  lost : value.data ≠ .map [] [] → ∀ depth, 2 ^ 32 ≤ depth.toNat + levels →
    ∃ after', p depth trace = some (.bad, after')

/-- Nothing, or a map with an entry. -/
def BadOrFilled (v : Value) : Prop :=
  v = .bad ∨ ∃ key keys elems, v.data = .map (key :: keys) elems

theorem badOrFilled_ofFound (found : Option Entries) (confidence : Float) :
    BadOrFilled (ofFound found confidence) := by
  match found with
  | none => exact .inl rfl
  | some [] => exact .inl rfl
  | some (entry :: rest) => exact .inr ⟨_, _, _, rfl⟩

section Outcomes

variable {levels : Nat} {p : UInt32 → Reading Value} {trace : Trace}

/-- Nothing or an empty map that was decided on without looking at the depth. -/
theorem oneOutcome_const {value : Value} (empty : value = .bad ∨ value.data = .map [] [])
    (const : ∀ depth, depth ≠ 0 → p depth = pure value) (few : levels < 2 ^ 32) :
    OneOutcome levels p trace value trace where
  map := empty.imp_right fun data => ⟨[], [], data⟩
  below depth deep _ := congrFun (const depth deep) trace
  empty _ depth deep := congrFun (const depth deep) trace
  lost other depth far := by
    obtain rfl := empty.resolve_right other
    have deep : depth ≠ 0 := by
      rintro rfl
      exact absurd far (Nat.not_le.mpr (Nat.lt_of_le_of_lt (Nat.zero_add levels).le few))
    exact ⟨trace, congrFun (const depth deep) trace⟩

/-- Readings that always come to something, to the same at all depths that levels can be added to,
and to nothing at the other ones. -/
theorem exists_oneOutcome (few : levels + 1 < 2 ^ 32)
    (same : ∀ depth depth', depth ≠ 0 → depth' ≠ 0 → depth.toNat + levels < 2 ^ 32 →
      depth'.toNat + levels < 2 ^ 32 → p depth = p depth')
    (answers : ∀ depth trace, ∃ outcome, p depth trace = some outcome)
    (filled : ∀ depth, depth ≠ 0 → Ensures (p depth) BadOrFilled)
    (lost : ∀ depth, depth ≠ 0 → 2 ^ 32 ≤ depth.toNat + levels → Ensures (p depth) (· = .bad)) :
    ∃ value after, OneOutcome levels p trace value after := by
  obtain ⟨⟨value, after⟩, come⟩ := answers 1 trace
  have kind := filled 1 (by decide) trace value after come
  have one : (1 : UInt32).toNat + levels < 2 ^ 32 := by
    rw [Nat.add_comm]
    exact few
  have below (depth : UInt32) (deep : depth ≠ 0) (fits : depth.toNat + levels < 2 ^ 32) :
      p depth trace = some (value, after) := by
    rw [same depth 1 deep (by decide) fits one, come]
  refine ⟨value, after, ?_, below, ?_, ?_⟩
  · exact kind.imp_right fun ⟨key, keys, elems, data⟩ => ⟨key :: keys, elems, data⟩
  · intro empty
    obtain rfl | ⟨_, _, _, data⟩ := kind
    · cases empty
    · cases data.symm.trans empty
  · intro _ depth far
    have deep : depth ≠ 0 := by
      rintro rfl
      exact absurd far (by simp only [UInt32.toNat_zero]; omega)
    obtain ⟨⟨v, after'⟩, come⟩ := answers depth trace
    obtain rfl := lost depth deep far trace v after' come
    exact ⟨after', come⟩

end Outcomes

section Legacy

variable {s : Source} {read : Reader} {type : GoType} {address : UInt64} {depth depth' : UInt32}

section Same

variable (same : ∀ a, read type a (depth + 1) = read type a (depth' + 1))

include same

theorem withOverflow_congr (overflowOffset : UInt64) :
    withOverflow s read type overflowOffset depth =
      withOverflow s read type overflowOffset depth' := by
  funext more bucket address
  simp only [withOverflow, same]

theorem bucketChain_congr (overflowOffset : UInt64) (limit : Nat) :
    bucketChain s read type overflowOffset depth limit =
      bucketChain s read type overflowOffset depth' limit := by
  induction limit with
  | zero => rw [bucketChain, bucketChain, withOverflow_congr same]
  | succ limit ih => rw [bucketChain, bucketChain, withOverflow_congr same, ih]

theorem buckets_congr (overflowOffset stride wanted : UInt64) (count : Nat) (address : UInt64)
    (found : Nat) : buckets s read type overflowOffset stride wanted depth count address found =
      buckets s read type overflowOffset stride wanted depth' count address found := by
  induction count generalizing address found with
  | zero => rfl
  | succ count ih => simp only [buckets, same, bucketChain_congr same, ih]

/-- Only the depth of the buckets matters to a map. -/
theorem legacyMap_congr (deep : depth ≠ 0) (deep' : depth' ≠ 0) :
    legacyMap s read type address depth = legacyMap s read type address depth' := by
  simp only [legacyMap, deep, deep', if_false, buckets_congr same]

end Same

variable (type) in
/-- A map that counts no entries is decided on by its header. -/
theorem legacyMap_empty (zero : s.readWord? address = some 0) :
    ∃ value, (value = .bad ∨ value.data = .map [] []) ∧
      ∀ (read : Reader) depth, depth ≠ 0 → legacyMap s read type address depth = pure value := by
  unfold legacyMap
  dsimp only
  rw [zero]
  cases s.readUnsigned? (s.wordAt address 1 + 1) 1 with
  | none => exact ⟨.bad, .inl rfl, fun _ _ _ => rfl⟩
  | some log2Buckets =>
  cases s.readUnsigned? (s.wordAt address 1 + 4) 4 with
  | none => exact ⟨.bad, .inl rfl, fun _ _ _ => rfl⟩
  | some seed =>
  cases s.readWord? (s.wordAt address 1 + 8) with
  | none => exact ⟨.bad, .inl rfl, fun _ _ _ => rfl⟩
  | some base =>
      refine ⟨.mk (Confidence.ofMapSeed seed legacySeedBits) (.map [] []), .inr rfl,
        fun read depth deep => ?_⟩
      dsimp only
      rw [if_neg deep, if_pos rfl]

/-- A map that counts entries is what is found in its buckets. -/
theorem ensures_legacyMap {post : Value → Prop} (deep : depth ≠ 0)
    (some : s.readWord? address ≠ some 0) (bad : post .bad)
    (entries : ∀ offset stride wanted count base,
      Ensures (buckets s read type offset stride wanted depth count base 0) fun found =>
        ∀ confidence, post (ofFound found confidence)) :
    Ensures (legacyMap s read type address depth) post := by
  unfold legacyMap
  dsimp only
  split
  · next count log2Buckets seed base counted _ _ _ =>
    have nonzero : count ≠ 0 := by
      rintro rfl
      exact some counted
    rw [if_neg deep, if_neg nonzero]
    cases overflowOffset? type with
    | none => exact ensures_pure bad
    | some overflow =>
        dsimp only
        split
        · exact ensures_pure bad
        · cases overflow with
          | none => exact .after fun _ => ensures_pure bad
          | some offset =>
              refine .after fun _ => ?_
              split
              · exact ensures_pure bad
              · exact Ensures.bind (entries _ _ _ _ _) fun found good => ensures_pure (good _)
  · exact ensures_pure bad

/-- Buckets that are not read as structs have no entries. -/
theorem ensures_buckets_unread
    (unread : ∀ a, ∃ v, read type a (depth + 1) = pure v ∧ structFields? v = none)
    (overflowOffset stride wanted : UInt64) (count : Nat) (address : UInt64) (found : Nat) :
    Ensures (buckets s read type overflowOffset stride wanted depth count address found)
      fun found => ∀ confidence, ofFound found confidence = .bad := by
  cases count with
  | zero => exact ensures_pure fun _ => rfl
  | succ count =>
      rw [buckets]
      split
      · exact ensures_pure fun _ => rfl
      · obtain ⟨v, come, none⟩ := unread address
        rw [come, pure_bind, none]
        exact ensures_pure fun _ => rfl

end Legacy

section Swiss

variable {s : Source} {read : Reader} {type : GoType} {address : UInt64} {depth depth' : UInt32}

section Same

variable (same : ∀ a, read type a (depth + 2) = read type a (depth' + 2))

include same

theorem group_congr : group read type depth = group read type depth' := by
  funext address
  rw [group, group, same]

theorem groups_congr (count : Nat) (address : UInt64) :
    groups read type depth count address = groups read type depth' count address := by
  induction count generalizing address with
  | zero => rfl
  | succ count ih => simp only [groups, group_congr same, ih]

theorem table_congr : table s read type depth = table s read type depth' := by
  funext address
  simp only [table, groups_congr same]

theorem tables_congr (addresses : List UInt64) :
    tables s read type depth addresses = tables s read type depth' addresses := by
  induction addresses with
  | nil => rfl
  | cons address rest ih => simp only [tables, table_congr same, ih]

theorem directory_congr : directory s read type depth = directory s read type depth' := by
  funext base length
  simp only [directory, tables_congr same]

/-- Only the depth of the groups matters to a map. -/
theorem swissMap_congr (deep : depth ≠ 0) (deep' : depth' ≠ 0) :
    swissMap s read type address depth = swissMap s read type address depth' := by
  simp only [swissMap, deep, deep', if_false, group_congr same, directory_congr same]

end Same

variable (type) in
/-- A map that counts no entries is decided on by its header. -/
theorem swissMap_empty (zero : s.readUnsigned? address 8 = some 0) :
    ∃ value, (value = .bad ∨ value.data = .map [] []) ∧
      ∀ (read : Reader) depth, depth ≠ 0 → swissMap s read type address depth = pure value := by
  unfold swissMap
  dsimp only
  rw [zero]
  cases s.readWord? (address + 8) with
  | none => exact ⟨.bad, .inl rfl, fun _ _ _ => rfl⟩
  | some seed =>
  cases s.readWord? (s.wordAt (address + 8) 1) with
  | none => exact ⟨.bad, .inl rfl, fun _ _ _ => rfl⟩
  | some base =>
  cases s.readWord? (s.wordAt (address + 8) 2) with
  | none => exact ⟨.bad, .inl rfl, fun _ _ _ => rfl⟩
  | some directoryLength =>
      refine ⟨.mk (Confidence.ofMapSeed seed (swissSeedBits s)) (.map [] []), .inr rfl,
        fun read depth deep => ?_⟩
      dsimp only
      rw [if_neg deep, if_pos rfl]

/-- A map that counts entries is what is found in its group or its directory. -/
theorem ensures_swissMap {post : Value → Prop} (deep : depth ≠ 0)
    (some : s.readUnsigned? address 8 ≠ some 0) (bad : post .bad)
    (small : ∀ base, Ensures (group read type depth base) fun found =>
      ∀ confidence, post (ofFound found confidence))
    (large : ∀ base length, Ensures (directory s read type depth base length) fun found =>
      ∀ confidence, post (ofFound found confidence)) :
    Ensures (swissMap s read type address depth) post := by
  unfold swissMap
  dsimp only
  split
  · next length seed base directoryLength counted _ _ _ =>
    have nonzero : length ≠ 0 := by
      rintro rfl
      exact some counted
    rw [if_neg deep, if_neg nonzero]
    split
    · exact (small base).bind fun found good => ensures_pure (good _)
    · refine .after fun _ => ?_
      exact Ensures.bind (large _ _) fun found good => ensures_pure (good _)
  · exact ensures_pure bad

section Unread

variable (unread : ∀ a, group read type depth a = pure none)

include unread

theorem ensures_groups_unread (count : Nat) (address : UInt64) :
    Ensures (groups read type depth count address) fun found => found.getD [] = [] := by
  cases count with
  | zero => exact ensures_pure rfl
  | succ count =>
      rw [groups, unread, pure_bind]
      exact ensures_pure rfl

theorem ensures_tables_unread (addresses : List UInt64) :
    Ensures (tables s read type depth addresses) fun found => found.getD [] = [] := by
  induction addresses with
  | nil => exact ensures_pure rfl
  | cons address rest ih =>
      have here : Ensures (table s read type depth address) fun found => found.getD [] = [] := by
        rw [table]
        split
        · split
          · exact .after fun _ => ensures_pure rfl
          · exact ensures_groups_unread unread _ _
        · exact ensures_pure rfl
      refine here.bind fun found nil => ?_
      cases found with
      | none => exact ensures_pure rfl
      | some entries =>
          refine ih.bind fun others nil' => ?_
          cases others with
          | none => exact ensures_pure rfl
          | some others =>
              obtain rfl : entries = [] := nil
              exact ensures_pure nil'

/-- Tables whose groups are not read have no entries. -/
theorem ensures_directory_unread (base length : UInt64) :
    Ensures (directory s read type depth base length) fun found =>
      ∀ confidence, ofFound found confidence = .bad := by
  have bad (found : Option Entries) (nil : found.getD [] = []) (confidence : Float) :
      ofFound found confidence = .bad := by
    match found, nil with
    | none, _ => rfl
    | some [], _ => rfl
  rw [directory]
  split
  · exact ensures_pure fun _ => rfl
  · refine (ensures_tables_unread unread _).bind fun found nil => ?_
    split
    · exact ensures_pure (bad found nil)
    · exact ensures_pure fun _ => rfl

end Unread

end Swiss

section Types

variable {s : Source} {version : VersionBound} {k v : IntegerKind} {t type : GoType} {n : Nat}

theorem flat_legacyFields : Flat 2 (.struct (legacyFields k.term v.term)) := by
  refine .struct ?_
  rw [legacyFields]
  exact List.forall_mem_cons.mpr ⟨.array .basic, List.forall_mem_cons.mpr ⟨.array .basic,
    List.forall_mem_cons.mpr ⟨.array .basic, List.forall_mem_singleton.mpr .basic⟩⟩⟩

theorem flat_groupFields : Flat 3 (.struct (groupFields k.term v.term)) := by
  have slot : Flat 1 (TypeTerm.slot k.term v.term) := by
    refine .struct ?_
    exact List.forall_mem_cons.mpr ⟨.basic, List.forall_mem_singleton.mpr .basic⟩
  refine .struct ?_
  rw [groupFields]
  exact List.forall_mem_cons.mpr ⟨.basic, List.forall_mem_singleton.mpr (.array slot)⟩

/-- A struct is not looked into without depth. -/
theorem struct_unread {fields : List (FieldName × TypeTerm)}
    (denotes : Denotes s.graph version s.pointerWidth (.struct fields) t) (address : UInt64) :
    within s (n + 1) t address 0 = pure (.unparsed address certain) := by
  cases denotes with
  | struct heads shape denote =>
      rw [within, step, shape]
      exact if_pos rfl

/-- An array shows no elements without depth. -/
theorem array_unread {length : Nat} {e : TypeTerm}
    (denotes : Denotes s.graph version s.pointerWidth (.array length e) t) (address : UInt64) :
    ∃ value, within s (n + 1) t address 0 = pure value ∧ arrayElements? value = none := by
  cases denotes with
  | array heads shape size known denotes =>
      rw [within, step, shape]
      dsimp only
      rw [known]
      dsimp only
      rw [arrayOf]
      split
      · exact ⟨_, if_pos rfl, rfl⟩
      · exact ⟨_, rfl, rfl⟩

theorem groupEntries?_eq_none {names : List Text} {values : List Value} {confidence : Float}
    (hidden : ∀ slots, Value.fieldOf? names values (utf8 "slots") = some slots →
      arrayElements? slots = none) :
    groupEntries? (.mk confidence (.struct names values)) = none := by
  rw [Option.eq_none_iff_forall_ne_some]
  intro entries come
  simp only [groupEntries?, structFields?, Value.data, Option.bind_eq_bind, Option.bind_some,
    Option.bind_eq_some_iff] at come
  obtain ⟨_, _, _, _, slots, found, elements, shown, _⟩ := come
  rw [hidden slots found] at shown
  cases shown

/-- A struct with one level of depth, whose second field shows no elements, has not the layout of a
group. -/
theorem slots_unread {address : UInt64} {f g : Field (TypeRef GoType)} {tf tg : GoType}
    (shape : type.shape = .struct [f, g]) (knownControl : s.graph.deref? f.type = some tf)
    (knownSlots : s.graph.deref? g.type = some tg) (nameControl : f.name = utf8 "ctrl")
    (control : ∃ value, within s (n + 1) tf (address + f.offset) 0 = pure value)
    (slots : ∃ value, within s (n + 1) tg (address + g.offset) 0 = pure value ∧
      arrayElements? value = none) :
    ∃ value, within s (n + 2) type address 1 = pure value ∧ groupEntries? value = none := by
  obtain ⟨v, control⟩ := control
  obtain ⟨w, slots, hidden⟩ := slots
  have last : fields s (within s (n + 1)) address 0 [g] =
      pure (if w.isBad then [] else [(g.name, w)]) := by
    simp only [fields, knownSlots, slots, pure_bind]
    split <;> rfl
  have all : fields s (within s (n + 1)) address 0 [f, g] = pure (if v.isBad then [] else
      (f.name, v) :: if w.isBad then [] else [(g.name, w)]) := by
    rw [fields, knownControl]
    dsimp only
    rw [control, pure_bind, last]
    split <;> rfl
  rw [within, step, shape]
  show ∃ value, (fields s (within s (n + 1)) address 0 [f, g] >>= _) = pure value ∧ _
  rw [all, pure_bind]
  split
  · exact ⟨.bad, rfl, rfl⟩
  · refine ⟨_, rfl, groupEntries?_eq_none fun slots found => ?_⟩
    rw [Value.fieldOf?, List.zip_map', List.map_id'' fun _ => rfl] at found
    obtain ⟨⟨name, value⟩, first, rfl⟩ := Option.map_eq_some_iff.mp found
    have named := List.find?_some first
    have mem := List.mem_of_find?_eq_some first
    split at mem
    · cases mem
    · obtain same | mem := List.mem_cons.mp mem
      · cases same
        rw [nameControl] at named
        cases named
      · split at mem
        · cases mem
        · cases List.mem_singleton.mp mem
          exact hidden

/-- A group shows no entries to a depth that its slots use up. -/
theorem group_unread
    (denotes : Denotes s.graph version s.pointerWidth (.struct (groupFields k.term v.term)) type)
    {depth : UInt32} (few : depth + 2 = 0 ∨ depth + 2 = 1) (address : UInt64) :
    group (within s (n + 2)) type depth address = pure none := by
  obtain few | few := few
  · rw [group, few, struct_unread denotes, pure_bind]
    rfl
  · cases denotes with
    | struct heads shape denote =>
        rw [groupFields] at denote
        obtain _ | ⟨knownControl, control, _ | ⟨knownSlots, slots, _ | _⟩⟩ := denote
        obtain ⟨value, come, none⟩ := slots_unread shape knownControl knownSlots rfl
          ((settles_of_flat .basic (Nat.zero_le n) control).answers _ 0) (array_unread slots _)
        rw [group, few, come, pure_bind, none]

/-- Readings of maps come to something, as readings of their buckets or groups always do. -/
theorem answers_of_settles {levels : Nat} {p : Reader → Reading Value} {trace : Trace}
    (settles : Settles (within s n) levels type)
    (sequential : Sequential (fun t _ _ => t = type) trace.seen p) :
    ∃ outcome, p (within s n) trace = some outcome := by
  refine sequential.answers (regular_within s n) ?_ rfl
  rintro _ address depth trace rfl
  obtain ⟨v, come⟩ := settles.answers address depth
  exact ⟨(v, trace), congrFun come trace⟩

/-- The depth of the buckets or groups of a map, where it does not wrap around. -/
theorem le_added {depth levels : UInt32} {needed : Nat} (deep : depth ≠ 0)
    (enough : needed ≤ levels.toNat + 1) (fits : depth.toNat + levels.toNat < 2 ^ 32) :
    needed ≤ (depth + levels).toNat := by
  have positive : depth.toNat ≠ 0 := fun zero => deep (UInt32.toNat_inj.mp zero)
  rw [UInt32.toNat_add, Nat.mod_eq_of_lt fits]
  omega

theorem exists_oneOutcome_legacyMap (enough : 2 ≤ n)
    (denotes : Denotes s.graph version s.pointerWidth (.struct (legacyFields k.term v.term)) type)
    (address : UInt64) (trace : Trace) :
    ∃ value after,
      OneOutcome 1 (legacyMap s (within s (n + 1)) type address) trace value after := by
  have settles := settles_of_flat flat_legacyFields enough denotes
  by_cases zero : s.readWord? address = some 0
  · obtain ⟨value, empty, const⟩ := legacyMap_empty type zero
    exact ⟨value, trace, oneOutcome_const empty (const _) (by decide)⟩
  · refine exists_oneOutcome (by decide) ?_ ?_ ?_ ?_
    · intro depth depth' deep deep' fits fits'
      have same (a : UInt64) : within s (n + 1) type a (depth + 1) =
          within s (n + 1) type a (depth' + 1) :=
        settles.steady a _ _ (le_added deep (by decide) fits) (le_added deep' (by decide) fits')
      exact legacyMap_congr same deep deep'
    · intro depth trace
      exact answers_of_settles settles (.legacyMap address fun _ _ => rfl)
    · intro depth deep
      exact ensures_legacyMap deep zero (.inl rfl) fun _ _ _ _ _ =>
        (ensures_true _).mono fun found _ => badOrFilled_ofFound found
    · intro depth deep far
      have last : depth + 1 = 0 := by
        apply UInt32.toNat_inj.mp
        have := depth.toNat_lt
        rw [UInt32.toNat_add]
        simp only [UInt32.reduceToNat]
        omega
      have unread (a : UInt64) : ∃ v, within s (n + 1) type a (depth + 1) = pure v ∧
          structFields? v = none := by
        rw [last]
        exact ⟨_, struct_unread denotes a, rfl⟩
      exact ensures_legacyMap deep zero rfl fun _ _ _ _ _ =>
        ensures_buckets_unread unread _ _ _ _ _ _

theorem exists_oneOutcome_swissMap (enough : 3 ≤ n)
    (denotes : Denotes s.graph version s.pointerWidth (.struct (groupFields k.term v.term)) type)
    (address : UInt64) (trace : Trace) :
    ∃ value after, OneOutcome 2 (swissMap s (within s (n + 1)) type address) trace value after := by
  have settles := settles_of_flat flat_groupFields enough denotes
  by_cases zero : s.readUnsigned? address 8 = some 0
  · obtain ⟨value, empty, const⟩ := swissMap_empty type zero
    exact ⟨value, trace, oneOutcome_const empty (const _) (by decide)⟩
  · refine exists_oneOutcome (by decide) ?_ ?_ ?_ ?_
    · intro depth depth' deep deep' fits fits'
      have same (a : UInt64) : within s (n + 1) type a (depth + 2) =
          within s (n + 1) type a (depth' + 2) :=
        settles.steady a _ _ (le_added deep (by decide) fits) (le_added deep' (by decide) fits')
      exact swissMap_congr same deep deep'
    · intro depth trace
      exact answers_of_settles settles (.swissMap address fun _ _ => rfl)
    · intro depth deep
      exact ensures_swissMap deep zero (.inl rfl)
        (fun _ => (ensures_true _).mono fun found _ => badOrFilled_ofFound found)
        fun _ _ => (ensures_true _).mono fun found _ => badOrFilled_ofFound found
    · intro depth deep far
      have last : depth + 2 = 0 ∨ depth + 2 = 1 := by
        rw [← UInt32.toNat_inj, ← UInt32.toNat_inj, UInt32.toNat_add]
        have := depth.toNat_lt
        simp only [UInt32.reduceToNat]
        omega
      obtain ⟨n, rfl⟩ := Nat.exists_eq_add_of_le' (Nat.le_trans (by decide) enough : 1 ≤ n)
      have unread (a : UInt64) : group (within s (n + 1 + 1)) type depth a = pure none :=
        group_unread denotes last a
      refine ensures_swissMap deep zero rfl (fun base => ?_) fun _ _ =>
        ensures_directory_unread unread _ _
      rw [unread]
      exact ensures_pure fun _ => rfl

end Types

/-- How deep a map of integers is read does not change what is found, until the levels of its
buckets or groups make the depth wrap around. Over every graph whose nodes are what their names say,
the text of the map type is read as a type. Whatever lies in memory, an object of that type is read
to all depths but zero as the same value, a map or nothing, with the same objects visited and the
same events. At the highest depth, and from 1.24 on at the two highest, it is bad unless the map is
empty. -/
theorem reader_oneOutcome {s : Source} {version : VersionBound} {k v : IntegerKind}
    (wide : s.pointerWidth = 4 ∨ s.pointerWidth = 8)
    (faithful : Faithful s.graph version s.pointerWidth (.map k.term v.term)) (address : UInt64)
    (trace : Trace) :
    ∃ t, (parse s.graph version s.pointerWidth (map k.term v.term).text).bind s.graph.lookup? =
        some t ∧
      ∃ value after, OneOutcome (addedLevels version) (reader s t address) trace value after := by
  obtain ⟨t, type, known, denotes, reads⟩ := exists_mapReader wide faithful
  refine ⟨t, known, ?_⟩
  rw [funext (reads address), addedLevels]
  cases swiss : version.swissMaps with
  | true =>
      exact exists_oneOutcome_swissMap (n := limit - 2) (by decide)
        (SwissMap.bucket_of_new swiss ▸ denotes) address trace
  | false =>
      exact exists_oneOutcome_legacyMap (n := limit - 2) (by decide)
        (LegacyMap.bucket_of_old swiss ▸ denotes) address trace

section Sample

open LegacyMap

/-- The header of a map, and its only bucket behind it. -/
def oneBucketBlock : Bytes :=
  (littleEndianBytes 8 1 ++ littleEndianBytes 4 0 ++ littleEndianBytes 4 0xCAFE ++
    littleEndianBytes 8 0x1020 ++ littleEndianBytes 8 0 ++ bucketBytes sampleMain 0).toArray

def oneBucket : Source where
  memory := (MappedMemory.map ⟨∅, 0⟩ 0x1000 oneBucketBlock).toMemory
  pointerWidth := 8
  graph := .empty
  settings := {}

def oneRow : Row 8 byte byte := ⟨sampleMain, []⟩

/-- The entry is found by a reader that is given its bucket. -/
theorem gives_oneBucket {type : GoType} (denotes : Denotes oneBucket.graph ⟨20, 20⟩ 8
    (TypeTerm.bucket ⟨20, 20⟩ byte.term byte.term) type) :
    Gives (legacyMap oneBucket (within oneBucket (limit - 1)) type 0x1000 1)
      (ShowsMap 8 ([(1#8, 10#8)] : List (Entry 8 byte byte))) := by
  have shown : oneBucket.memory.Shows (UInt64.ofNat 0x1000) oneBucketBlock :=
    MappedMemory.shows_map (by decide)
  have inside : 0x1000 + oneBucketBlock.size ≤ 2 ^ (8 * oneBucket.pointerWidth.toNat) := by decide
  have small : oneBucketBlock.size < 2 ^ 64 := by decide
  have lies (place : Nat) {bytes : List UInt8} (there : oneBucketBlock.Holds place bytes)
      (some : bytes ≠ []) : oneBucket.Stores (0x1000 + place) bytes :=
    Source.stores_of_shows inside small shown there some
  have main : BucketAt oneBucket sampleMain (0x1000 + 0x20) 0 :=
    bucketAt_of_shows (.inr rfl) inside small shown (by decide) (by decide)
  have header :
      HeaderAt oneBucket ([oneRow].flatMap Row.entries).length 0 0xCAFE 0x1020 0x1000 := by
    refine ⟨lies 0 ?_ ?_, lies 9 ?_ ?_, lies 12 ?_ ?_, lies 16 ?_ ?_⟩ <;> decide
  have rowsAt : ∀ (i : Nat) row, [oneRow][i]? = some row →
      RowAt oneBucket row (0x1020 + i * stride oneBucket.pointerWidth byte byte) := by
    rintro (_ | i) _ mem
    · cases mem
      rw [Nat.zero_mul]
      exact ⟨0, main, rfl⟩
    · cases mem
  have short : ∀ row ∈ [oneRow],
      row.overflow.length ≤ oneBucket.settings.overflowDepth.toNat := by
    intro row mem
    rw [List.mem_singleton.mp mem]
    decide
  have legacy : (⟨20, 20⟩ : VersionBound).swissMaps = false := rfl
  exact gives_legacyMap (.inr rfl) (by decide) (bucket_of_old legacy ▸ denotes)
    (reads_buckets (n := limit - 4) (.inr rfl) legacy (by decide) (by decide) denotes) (by decide)
    rfl header (by decide) (by decide) rowsAt short

/-- A map of one entry is read to depth 1, and lost at the highest depth. -/
theorem reader_oneOutcome_oneBucket :
    ∃ t, (parse oneBucket.graph ⟨20, 20⟩ oneBucket.pointerWidth
        (map byte.term byte.term).text).bind oneBucket.graph.lookup? = some t ∧
      (∃ value, reader oneBucket t 0x1000 1 {} = some (value, {}) ∧
        ShowsMap 8 ([(1#8, 10#8)] : List (Entry 8 byte byte)) value) ∧
      ∃ after, reader oneBucket t 0x1000 0xFFFFFFFF {} = some (.bad, after) := by
  have faithful : Faithful oneBucket.graph ⟨20, 20⟩ oneBucket.pointerWidth
      (.map byte.term byte.term) := faithful_empty _
  obtain ⟨t, known, value, after, outcome⟩ := reader_oneOutcome (.inr rfl) faithful 0x1000 {}
  obtain ⟨t', type, known', denotes, reads⟩ := exists_mapReader (.inr rfl) faithful
  cases known'.symm.trans known
  obtain ⟨value', come, shows⟩ := gives_oneBucket denotes {}
  have first : reader oneBucket t 0x1000 1 {} = some (value', {}) := by
    rw [reads]
    exact come
  have same := (outcome.below 1 (by decide) (by decide)).symm.trans first
  cases same
  refine ⟨t, known, ⟨value, first, shows⟩, outcome.lost ?_ 0xFFFFFFFF (by decide)⟩
  obtain ⟨_, data, found⟩ := shows
  cases found
  rw [data]
  exact nofun

end Sample

end Extract

end GoInspect
