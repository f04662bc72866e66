import GoInspect.Proofs.GoType.Syntax

/-!
# The calls of reading a type text

Reading a text asks for parts of the text, and for a map also for a bucket text, which is longer
than the text of the map and has its key and its element again. `parseWithin` is the same reading
without that knowledge: it counts its calls, and gives up where they nest too deep. `nesting` bounds
how deep they can nest by the number of letters of `map` in a text and by its length. So the
counted reading of every text ends, after a number of calls that does not depend on the bound, and
gives what the text stands for.
-/

namespace GoInspect

namespace TypeSyntax

/-- A computation that counts calls. Nothing comes back where they nest too deep. -/
abbrev Counting := StateT Nat Option

section Calls

variable (g : TypeGraph) (version : VersionBound) (p : UInt32)

section Step

variable (call : Text → Counting (Option (TypeHandle GoType)))

/-- The names and types of declarations, up to the first one that has none. -/
def callMembers : List Text → Counting (Option (List (Text × TypeHandle GoType)))
  | [] => pure (some [])
  | text :: rest =>
    match declaration? text with
    | none => pure none
    | some (name, typeText) => do
      match ← call typeText with
      | none => pure none
      | some handle => do
        let others ← callMembers rest
        pure (others.map ((name, handle) :: ·))

/-- The struct of a text, by calls for the types of its fields. -/
def callStruct (t : Text) : Counting (Option (TypeHandle GoType)) :=
  match structBody? t with
  | none => pure none
  | some body => do
    let fields ← callMembers call (declarations body)
    pure ((fields.bind (layout? g {})).map fun l => .built (structOf version t l))

/-- The map of a text, by calls for its key, its element and, where both are types, its bucket. -/
def callMap (t : Text) : Counting (Option (TypeHandle GoType)) :=
  match mapParts? t with
  | none => pure none
  | some (keyText, elementText) => do
    match ← call keyText, ← call elementText with
    | some key, some element => do
      let bucket ← call (bucketText version keyText elementText)
      pure (bucket.map fun bucket =>
        .built (word version p t (.map (reference key) (reference element) (reference bucket))))
    | _, _ => pure none

/-- The array of a text, by a call for its element. -/
def callArray (t : Text) : Counting (Option (TypeHandle GoType)) :=
  match Text.cut? 93 (t.drop 1) with
  | none => pure none
  | some (lengthText, elementText) =>
    match lengthText.toUInt64? with
    | none => pure none
    | some length => do
      let element ← call elementText
      pure (element.bind fun element => (g.lookup? element).bind fun e =>
        (arrayOf? version t length element e).map .built)

/-- What a text stands for, by calls for the texts it is made of. -/
def callStep (t : Text) : Counting (Option (TypeHandle GoType)) :=
  match g.addressOfName? t with
  | some address => pure (some (.node address))
  | none =>
    match basic? version p t with
    | some b => pure (some (.built b))
    | none =>
      if (utf8 "[]").isPrefixOf t then do
        let element ← call (t.drop 2)
        pure (element.map fun element => .built (make version t (.slice (reference element))
          (3 * p).toUInt64 p.toUInt64))
      else if (utf8 "[").isPrefixOf t then callArray g version call t
      else if (utf8 "*").isPrefixOf t then do
        let element ← call (t.drop 1)
        pure (element.map fun element => .built (word version p t (.pointer (reference element))))
      else if (utf8 "struct").isPrefixOf t then callStruct g version call t
      else if (utf8 "map[").isPrefixOf t then callMap version p call t
      else if (utf8 "func").isPrefixOf t || (utf8 "chan").isPrefixOf t then
        pure (some (.built (word version p t (.basic .uintptr))))
      else pure none

end Step

/-- Reading a text by at most `limit` calls inside each other. Every call is counted. -/
def parseWithin : (limit : Nat) → Text → Counting (Option (TypeHandle GoType))
  | 0, _ => fun _ => none
  | limit + 1, t => do
    modify (· + 1)
    callStep g version p (parseWithin limit) t

end Calls

section Nesting

variable {t u : Text}

/-- What a bucket text is longer than the text of the map at most. -/
def bucketExcess : Nat := 72

/-- How deep the calls for a text nest at most. -/
def nesting (t : Text) : Nat :=
  (t.count mark + 1) * (t.length + bucketExcess * t.count mark)

/-- A shorter part of a text nests less deep. -/
theorem nesting_lt_of_sublist (h : u.Sublist t) (lt : u.length < t.length) :
    nesting u < nesting t := by
  have marks : u.count mark ≤ t.count mark := h.count_le mark
  have scaled : bucketExcess * u.count mark ≤ bucketExcess * t.count mark :=
    Nat.mul_le_mul_left _ marks
  exact Nat.mul_lt_mul_of_le_of_lt (by omega) (by omega) (by omega)

theorem nesting_drop_lt {start : Text} (h : start.isPrefixOf t) (nonempty : 0 < start.length)
    {n : Nat} (pos : 0 < n) : nesting (t.drop n) < nesting t := by
  have long := (List.isPrefixOf_iff_prefix.mp h).length_le
  refine nesting_lt_of_sublist (List.drop_sublist n t) ?_
  rw [List.length_drop]
  omega

/-- What follows a cut nests less deep than the text. -/
theorem nesting_cut?_lt {separator : UInt8} {before after : Text}
    (cut : Text.cut? separator u = some (before, after)) (part : u.Sublist t) :
    nesting after < nesting t := by
  obtain ⟨inside, shorter⟩ := cut?_sublist cut
  exact nesting_lt_of_sublist (inside.trans part) (shorter.trans_le part.length_le)

/-- The type of a field nests less deep than the struct. -/
theorem nesting_declaration?_lt {start body text name typeText : Text}
    (h : start.isPrefixOf t) (nonempty : 0 < start.length) (found : structBody? t = some body)
    (mem : text ∈ declarations body) (declared : declaration? text = some (name, typeText)) :
    nesting typeText < nesting t := by
  have inside := (cut?_sublist declared).1.trans
    ((trim_sublist text).trans (declarations_sublist mem))
  have shorter := structBody?_length h nonempty found
  exact nesting_lt_of_sublist (inside.trans (structBody?_sublist found))
    (inside.length_le.trans_lt shorter)

/-- A text with fewer marks that is not much longer nests less deep. -/
theorem nesting_lt_of_count (fewer : u.count mark < t.count mark)
    (short : u.length ≤ t.length + bucketExcess) : nesting u < nesting t := by
  have scaled : bucketExcess * (u.count mark + 1) ≤ bucketExcess * t.count mark :=
    Nat.mul_le_mul_left _ fewer
  have bound : u.length + bucketExcess * u.count mark ≤
      t.length + bucketExcess * t.count mark := by
    rw [Nat.mul_add, Nat.mul_one] at scaled
    omega
  have positive : 0 < t.length + bucketExcess * t.count mark := by
    have one : bucketExcess * 1 ≤ bucketExcess * t.count mark :=
      Nat.mul_le_mul_left _ (Nat.one_le_of_lt fewer)
    rw [bucketExcess] at one ⊢
    omega
  calc nesting u
      ≤ t.count mark * (t.length + bucketExcess * t.count mark) := Nat.mul_le_mul fewer bound
    _ < nesting t := Nat.mul_lt_mul_of_pos_right (Nat.lt_succ_self _) positive

theorem length_bucketText (version : VersionBound) (key element : Text) :
    (bucketText version key element).length ≤ key.length + element.length + bucketExcess := by
  have swiss : (utf8 "struct \x7b ctrl uint64; slots [8]struct \x7b key ").length = 44 ∧
      (utf8 "; elem ").length = 7 ∧ (utf8 " \x7d \x7d").length = 4 := by decide
  have legacy : (utf8 "struct \x7b topbits [8]uint8; keys [8]").length = 35 ∧
      (utf8 "; elems [8]").length = 11 ∧ (utf8 "; overflow uintptr \x7d").length = 20 := by
    decide
  unfold bucketText
  split <;> simp only [List.length_append, swiss, legacy, bucketExcess] <;> omega

theorem length_mapParts {key element : Text}
    (h : mapParts? t = some (key, element)) : key.length + element.length ≤ t.length := by
  have whole := closeBracket?_eq (Option.filter_eq_some_iff.mp h).1
  have length := congrArg List.length whole
  rw [List.length_drop, List.length_append, List.length_cons] at length
  omega

/-- Key, element and bucket of a map nest less deep than the map. -/
theorem nesting_mapParts (version : VersionBound) {key element : Text}
    (start : (utf8 "map[").isPrefixOf t) (parts : mapParts? t = some (key, element)) :
    nesting key < nesting t ∧ nesting element < nesting t ∧
      nesting (bucketText version key element) < nesting t := by
  obtain ⟨fewer, shortKey, shortElement⟩ := count_mapParts start parts
  have bucket := length_bucketText version key element
  have both := length_mapParts parts
  refine ⟨nesting_lt_of_count ?_ ?_, nesting_lt_of_count ?_ ?_, nesting_lt_of_count ?_ ?_⟩
  all_goals first | rw [count_bucketText] | skip
  all_goals omega

end Nesting

section Forms

variable {g : TypeGraph} {version : VersionBound} {p : UInt32} {t : Text}

theorem parse_array_uncut (unnamed : g.addressOfName? t = none)
    (other : basic? version p t = none) (notSlice : ¬(utf8 "[]").isPrefixOf t)
    (start : (utf8 "[").isPrefixOf t) (uncut : Text.cut? 93 (t.drop 1) = none) :
    parse g version p t = none := by
  rw [parse, unnamed, other]
  dsimp only
  rw [dif_neg notSlice, dif_pos start]
  split
  · rfl
  · next cut => cases uncut.symm.trans cut

theorem parse_map_uncut (unnamed : g.addressOfName? t = none)
    (other : basic? version p t = none) (notArray : ¬(utf8 "[").isPrefixOf t)
    (notPointer : ¬(utf8 "*").isPrefixOf t) (notStruct : ¬(utf8 "struct").isPrefixOf t)
    (start : (utf8 "map[").isPrefixOf t) (uncut : mapParts? t = none) :
    parse g version p t = none := by
  have notSlice : ¬(utf8 "[]").isPrefixOf t :=
    fun slice => notArray (Text.isPrefixOf_of_append slice)
  rw [parse, unnamed, other]
  dsimp only
  rw [dif_neg notSlice, dif_neg notArray, dif_neg notPointer, dif_neg notStruct, dif_pos start]
  split
  · rfl
  · next parts => cases uncut.symm.trans parts

/-- Of all other texts those of functions and channels are taken as words. -/
theorem parse_rest (unnamed : g.addressOfName? t = none) (other : basic? version p t = none)
    (notArray : ¬(utf8 "[").isPrefixOf t) (notPointer : ¬(utf8 "*").isPrefixOf t)
    (notStruct : ¬(utf8 "struct").isPrefixOf t) (notMap : ¬(utf8 "map[").isPrefixOf t) :
    parse g version p t = if (utf8 "func").isPrefixOf t || (utf8 "chan").isPrefixOf t then
      some (.built (word version p t (.basic .uintptr))) else none := by
  have notSlice : ¬(utf8 "[]").isPrefixOf t :=
    fun slice => notArray (Text.isPrefixOf_of_append slice)
  rw [parse, unnamed, other]
  dsimp only
  rw [dif_neg notSlice, dif_neg notArray, dif_neg notPointer, dif_neg notStruct, dif_neg notMap]

end Forms

section Ends

variable {g : TypeGraph} {version : VersionBound} {p : UInt32} {α β : Type} {bound : Nat}

/-- A computation with a bound on the nesting of its calls has an outcome, and makes the same number
of calls, whatever the bound is from some bound on. -/
def Comes (bound : Nat) (x : (limit : Nat) → Counting α) (a : α) : Prop :=
  ∃ calls, ∀ limit, bound ≤ limit → ∀ made, x limit made = some (a, made + calls)

namespace Comes

theorem pure (a : α) : Comes bound (fun _ => pure a) a := ⟨0, fun _ _ _ => rfl⟩

theorem bind {x : Nat → Counting α} {next : Nat → α → Counting β} {a : α} {b : β}
    (first : Comes bound x a) (rest : Comes bound (fun limit => next limit a) b) :
    Comes bound (fun limit => x limit >>= next limit) b := by
  obtain ⟨n, first⟩ := first
  obtain ⟨m, rest⟩ := rest
  refine ⟨n + m, fun limit le made => ?_⟩
  show (x limit made).bind _ = _
  rw [first limit le made, Option.bind_some, ← Nat.add_assoc]
  exact rest limit le (made + n)

theorem mono {bound' : Nat} {x : Nat → Counting α} {a : α} (h : Comes bound x a)
    (le : bound ≤ bound') : Comes bound' x a := by
  obtain ⟨calls, h⟩ := h
  exact ⟨calls, fun limit le' => h limit (le.trans le')⟩

theorem map {x : Nat → Counting α} {a : α} {b : β} (h : Comes bound x a) {f : α → β}
    (eq : f a = b) :
    Comes bound (fun limit => do
      let a ← x limit
      return f a) b := by
  obtain ⟨calls, h⟩ := h
  refine ⟨calls, fun limit le made => ?_⟩
  show (x limit made).bind _ = _
  rw [h limit le made, ← eq]
  rfl

theorem step {t : Text} {handle : Option (TypeHandle GoType)}
    (h : Comes (nesting t)
      (fun limit => callStep g version p (parseWithin g version p limit) t) handle) :
    Comes (nesting t + 1) (fun limit => parseWithin g version p limit t) handle := by
  obtain ⟨calls, h⟩ := h
  refine ⟨1 + calls, fun limit le made => ?_⟩
  obtain ⟨limit, rfl⟩ := Nat.exists_eq_add_of_le' (Nat.le_of_add_left_le le)
  rw [← Nat.add_assoc]
  exact h limit (Nat.le_of_add_le_add_right le) (made + 1)

end Comes

/-- The fields of a struct are read one after another, as far as they can be. -/
theorem comes_callMembers {x : Nat → Text → Counting (Option (TypeHandle GoType))}
    {texts : List Text}
    (calls : ∀ text ∈ texts, ∀ name typeText, declaration? text = some (name, typeText) →
      Comes bound (fun limit => x limit typeText) (parse g version p typeText)) :
    Comes bound (fun limit => callMembers (x limit) texts)
      (texts.mapM (member? g version p)) := by
  induction texts with
  | nil => exact .pure _
  | cons text rest ih =>
      obtain ⟨first, later⟩ := List.forall_mem_cons.mp calls
      rw [List.mapM_cons, member?]
      simp only [callMembers]
      cases declared : declaration? text with
      | none => exact .pure _
      | some parts =>
          obtain ⟨name, typeText⟩ := parts
          refine (first name typeText declared).bind ?_
          dsimp only [Option.bind_some]
          cases parse g version p typeText with
          | none => exact .pure _
          | some handle =>
              refine (ih later).map ?_
              cases rest.mapM (member? g version p) <;> rfl

/-- One call has the outcome of reading the text, where all calls for texts that nest less deep have
theirs. -/
theorem comes_callStep {t : Text}
    (calls : ∀ u, nesting u < nesting t →
      Comes (nesting t) (fun limit => parseWithin g version p limit u) (parse g version p u)) :
    Comes (nesting t) (fun limit => callStep g version p (parseWithin g version p limit) t)
      (parse g version p t) := by
  cases named : g.addressOfName? t with
  | some address =>
      rw [parse, named]
      simp only [callStep, named]
      exact .pure _
  | none =>
  cases found : basic? version p t with
  | some b =>
      rw [parse_basic named found]
      simp only [callStep, named, found]
      exact .pure _
  | none =>
  simp only [callStep, named, found]
  by_cases slice : (utf8 "[]").isPrefixOf t
  · simp only [if_pos slice]
    rw [parse_slice named found slice]
    exact (calls _ (nesting_drop_lt slice (by decide) (by decide))).map rfl
  by_cases array : (utf8 "[").isPrefixOf t
  · simp only [if_neg slice, if_pos array, callArray]
    cases cut : Text.cut? 93 (t.drop 1) with
    | none =>
        rw [parse_array_uncut named found slice array cut]
        exact .pure _
    | some parts =>
        rw [parse_array named found slice array cut]
        dsimp only
        cases parts.1.toUInt64? with
        | none => exact .pure _
        | some length => exact (calls _ (nesting_cut?_lt cut (List.drop_sublist 1 t))).map rfl
  by_cases pointer : (utf8 "*").isPrefixOf t
  · simp only [if_neg slice, if_neg array, if_pos pointer]
    rw [parse_pointer named found array pointer]
    exact (calls _ (nesting_drop_lt pointer (by decide) (by decide))).map rfl
  by_cases struct : (utf8 "struct").isPrefixOf t
  · simp only [if_neg slice, if_neg array, if_neg pointer, if_pos struct, callStruct]
    rw [parse_struct named found array pointer struct]
    cases body : structBody? t with
    | none => exact .pure _
    | some inner =>
        refine (comes_callMembers fun text mem name typeText declared => calls _ ?_).map ?_
        · exact nesting_declaration?_lt struct (by decide) body mem declared
        · rw [Option.bind_some, Option.map_bind]
          rfl
  by_cases map : (utf8 "map[").isPrefixOf t
  · simp only [if_neg slice, if_neg array, if_neg pointer, if_neg struct, if_pos map, callMap]
    cases parts : mapParts? t with
    | none =>
        rw [parse_map_uncut named found array pointer struct map parts]
        exact .pure _
    | some texts =>
        obtain ⟨keyText, elementText⟩ := texts
        obtain ⟨lessKey, lessElement, lessBucket⟩ := nesting_mapParts version map parts
        rw [parse_map named found array pointer struct map parts]
        refine (calls _ lessKey).bind ((calls _ lessElement).bind ?_)
        cases parse g version p keyText with
        | none => exact .pure _
        | some key =>
            cases parse g version p elementText with
            | none => exact .pure _
            | some element => exact (calls _ lessBucket).map rfl
  · simp only [if_neg slice, if_neg array, if_neg pointer, if_neg struct, if_neg map]
    rw [parse_rest named found array pointer struct map]
    split <;> exact .pure _

theorem comes_parse (t : Text) :
    Comes (nesting t + 1) (fun limit => parseWithin g version p limit t)
      (parse g version p t) := by
  induction h : nesting t using Nat.strong_induction_on generalizing t with
  | _ n ih =>
    subst h
    exact (comes_callStep fun u less => (ih _ less u rfl).mono less).step

/-- Reading ends on every text. It takes a number of calls, which nest no deeper than the text says,
and a bound on their nesting beyond that changes neither the outcome nor their number. -/
theorem parseWithin_ends (t : Text) :
    ∃ calls, ∀ spare made, parseWithin g version p (nesting t + 1 + spare) t made =
      some (parse g version p t, made + calls) := by
  have comes : Comes (nesting t + 1) (fun limit => parseWithin g version p limit t)
      (parse g version p t) := comes_parse t
  obtain ⟨calls, come⟩ := comes
  exact ⟨calls, fun spare made => come _ (Nat.le_add_right _ spare) made⟩

/-- A call for the map, two for its key and its element, and eight for its bucket. -/
example : (parseWithin .empty ⟨20, 20⟩ 8 5 (utf8 "map[int]bool") 0).map Prod.snd = some 11 := by
  decide

end Ends

end TypeSyntax

end GoInspect
