import GoInspect.Proofs.GuessCache.Keys
import GoInspect.Proofs.Remark

/-!
# What a remark comes to

A remark looks at what is known about an address, then at what is guessed about it. `Judged`,
`Interface` and `TypeOrObject` list everything that can happen on the way, `Direct` everything that
a remark on an address by itself can come to, with the guesses it leaves behind. The remark on a
value is one of these or two, the second one about the word that the value points to.
-/

namespace GoInspect

open GuessCache

namespace Guesses

/-- In neither cache there are two guesses about one address. Every session keeps to that, as
`Session.run_distinct` says. -/
structure Distinct (g : Guesses) : Prop where
  types : g.types.DistinctKeys
  strings : g.strings.DistinctKeys

variable {g g' : Guesses}

theorem distinct_empty : empty.Distinct := ⟨distinctKeys_empty 64, distinctKeys_empty 128⟩

theorem distinct_clear (g : Guesses) : g.clear.Distinct := ⟨distinctKeys_clear, distinctKeys_clear⟩

theorem Distinct.addType (h : g.Distinct) (object type : UInt64) :
    (g.addType object type).Distinct := ⟨h.types.add object type, h.strings⟩

theorem Distinct.addString (h : g.Distinct) (address length : UInt64) :
    (g.addString address length).Distinct := ⟨h.types, h.strings.add address length⟩

theorem Distinct.removeType (h : g.Distinct) (object : UInt64) : (g.removeType object).Distinct :=
  ⟨h.types.remove object, h.strings⟩

theorem Distinct.removeString (h : g.Distinct) (address : UInt64) :
    (g.removeString address).Distinct := ⟨h.types, h.strings.remove address⟩

theorem Distinct.changes {functions : FunctionTable} {types : Option TypeGraph} (h : g.Distinct)
    (changes : Changes functions types g g') : g'.Distinct := by
  induction changes with
  | refl => exact h
  | tail _ change ih =>
      cases change with
      | addType => exact ih.addType _ _
      | addString => exact ih.addString _ _
      | removeType => exact ih.removeType _
      | removeString => exact ih.removeString _
      | enter => exact ⟨ih.types, ih.strings⟩

end Guesses

namespace Remark

section Looks

variable (c : Context)

/-- The object of a type at an address is plausible enough to be shown. -/
def Plausible (graph : TypeGraph) (t : GoType) (address : UInt64) : Prop :=
  Confidence.meets
    (Extract.value ⟨c.memory, c.analysis.pointerWidth, graph, c.settings⟩ t address
      objectDepth).value.confidence
    c.settings.confidence

/-- The type that an object is guessed to be of. What is no type of the graph is no guess. -/
def guessedType? (graph : TypeGraph) (g : Guesses) (address : UInt64) : Option GoType :=
  (g.types.find? address).bind graph.find?

def textAt (address length : UInt64) : Text :=
  let bytes :=
    if fitsAddressSpace address length c.analysis.pointerWidth then
      (c.memory.readBytes address length).toOption.filter (·.size = length.toNat)
    else none
  (bytes.map fun b => GuessedString.text b.toList).getD []

/-- The text of a guessed string, if it can be shown. -/
def guessedText? (g : Guesses) (address : UInt64) : Option Text :=
  ((g.strings.find? address).map (textAt c address)).filter (!·.isEmpty)

def dataWord? (containing : Option UInt64) : Option UInt64 :=
  containing.bind fun a => readWord? c (a + c.analysis.pointerWidth.toUInt64)

/-- An address lies in no function, and no type is known or plausibly guessed for it. -/
structure Unexplained (g : Guesses) (address : UInt64) : Prop where
  function : c.analysis.functions.find? address = none
  type : ∀ graph, c.analysis.types = some graph → graph.find? address = none
  object : ∀ graph t, c.analysis.types = some graph → guessedType? graph g address = some t →
    ¬Plausible c graph t address

/-- There is nothing to say about an address by itself. -/
def Quiet (g : Guesses) (address : UInt64) : Prop :=
  (∃ f offset, c.analysis.functions.find? address = some (f, offset) ∧ f.name = []) ∨
    Unexplained c g address ∧ guessedText? c g address = none

/-- The guessed type of an object is looked at. -/
inductive Judged (g : Guesses) (address : UInt64) : Option (Text × Text) → Guesses → Prop where
  | kept {graph : TypeGraph} {t : GoType} {shown : Text × Text} :
      c.analysis.types = some graph → guessedType? graph g address = some t →
      Plausible c graph t address → Judged g address (some shown) g
  | dropped {graph : TypeGraph} {t : GoType} : c.analysis.types = some graph →
      guessedType? graph g address = some t → ¬Plausible c graph t address →
      Judged g address none (g.removeType address)
  | unguessed : (∀ graph, c.analysis.types = some graph → guessedType? graph g address = none) →
      Judged g address none g

/-- The object of an interface value is guessed to be of a type, if there is one. -/
inductive Interface (typeAddress : UInt64) (containing : Option UInt64) (g : Guesses) :
    Guesses → Prop where
  | unknown : Interface typeAddress containing g g
  | guessed {object : UInt64} {shown : Option (Text × Text)} {g' : Guesses} :
      dataWord? c containing = some object →
      Judged c (g.addType object typeAddress) object shown g' →
      Interface typeAddress containing g g'

/-- A value is remarked on as a type or as the address of an object. -/
inductive TypeOrObject (address : UInt64) (containing : Option UInt64) (g : Guesses) :
    Text → Guesses → Prop where
  | type {graph : TypeGraph} {t : GoType} {line : Text} {g' : Guesses} :
      c.analysis.types = some graph → graph.find? address = some t → line ≠ [] →
      Interface c address containing g g' → TypeOrObject address containing g line g'
  | object {graph : TypeGraph} {t : GoType} {line : Text} : c.analysis.types = some graph →
      guessedType? graph g address = some t → Plausible c graph t address → line ≠ [] →
      TypeOrObject address containing g line g
  | neither {g' : Guesses} :
      (∀ graph, c.analysis.types = some graph → graph.find? address = none) →
      Judged c g address none g' → TypeOrObject address containing g [] g'

def shownText (text : Text) : Text := utf8 " (\"" ++ text ++ utf8 "\")"

/-- Everything that a remark on an address by itself can come to. -/
inductive Direct (address : UInt64) (containing : Option UInt64) (g : Guesses) :
    Text → Guesses → Prop where
  | function {f : FunctionEntry} {offset : UInt64} {line : Text} :
      c.analysis.functions.find? address = some (f, offset) → (line = [] ↔ f.name = []) →
      Direct address containing g line g
  | explained {line : Text} {g' : Guesses} : c.analysis.functions.find? address = none →
      line ≠ [] → TypeOrObject c address containing g line g' →
      Direct address containing g line g'
  | string {text : Text} {g' : Guesses} : Unexplained c g address →
      guessedText? c g address = some text → Judged c g address none g' →
      Direct address containing g (shownText text) g'
  | silent {between : Guesses} : Unexplained c g address → guessedText? c g address = none →
      Judged c g address none between →
      Direct address containing g [] (between.removeString address)

end Looks

variable {c : Context} {g g' between : Guesses} {address : UInt64} {containing : Option UInt64}
  {line : Text}

section Steps

variable {α β : Type} (g)

@[simp] theorem value_pure (x : α) : ((pure x : Remarking α) g).value = (x, g) := rfl

@[simp] theorem value_get : ((get : Remarking Guesses) g).value = (g, g) := rfl

@[simp] theorem value_lift (x : Logged α) : ((x : Remarking α) g).value = (x.value, g) := rfl

@[simp] theorem value_bind (step : Remarking α) (next : α → Remarking β) :
    ((step >>= next) g).value = (next (step g).value.1 (step g).value.2).value := rfl

end Steps

section Judging

variable {shown : Option (Text × Text)}

theorem Judged.refuted (h : Judged c g address none g') {graph : TypeGraph} {t : GoType}
    (types : c.analysis.types = some graph) (guess : guessedType? graph g address = some t) :
    ¬Plausible c graph t address := by
  cases h with
  | dropped types' guess' bad =>
      cases types.symm.trans types'
      cases guess.symm.trans guess'
      exact bad
  | unguessed none =>
      rw [none graph types] at guess
      cases guess

theorem Judged.strings_eq (h : Judged c g address shown g') : g'.strings = g.strings := by
  cases h <;> rfl

theorem Judged.previous_eq (h : Judged c g address shown g') : g'.previous = g.previous := by
  cases h <;> rfl

theorem Judged.distinct (h : Judged c g address shown g') (distinct : g.Distinct) :
    g'.Distinct := by
  cases h with
  | kept => exact distinct
  | dropped => exact distinct.removeType address
  | unguessed => exact distinct

theorem Judged.find?_of_ne {key : UInt64} (h : Judged c g address shown g') (ne : key ≠ address) :
    g'.types.find? key = g.types.find? key := by
  cases h with
  | kept => rfl
  | dropped => exact find?_remove_of_ne ne
  | unguessed => rfl

theorem Judged.find?_self {type : UInt64} (h : Judged c g address shown g')
    (distinct : g.Distinct) (found : g'.types.find? address = some type) :
    g.types.find? address = some type := by
  cases h with
  | kept => exact found
  | dropped =>
      have gone := distinct.types.find?_remove_self address
      cases gone.symm.trans found
  | unguessed => exact found

/-- No guess is left that is not plausible. -/
theorem Judged.checked {graph : TypeGraph} {t : GoType} (h : Judged c g address shown g')
    (distinct : g.Distinct) (types : c.analysis.types = some graph)
    (guess : guessedType? graph g' address = some t) : Plausible c graph t address := by
  cases h with
  | kept types' guess' good =>
      cases types.symm.trans types'
      cases guess.symm.trans guess'
      exact good
  | dropped =>
      obtain ⟨type, found, _⟩ := Option.bind_eq_some_iff.mp guess
      have gone := distinct.types.find?_remove_self address
      cases gone.symm.trans found
  | unguessed none => cases (none graph types).symm.trans guess

/-- Nothing was dropped where all slots are taken afterwards. -/
theorem Judged.eq_of_full (h : Judged c g address shown g')
    (full : g'.types.size = g'.types.capacity) : g'.types = g.types := by
  cases h with
  | kept => rfl
  | dropped => exact remove_eq_self_of_full full
  | unguessed => rfl

end Judging

section Runs

variable (c g) (address : UInt64) (containing : Option UInt64)

theorem object?_cases :
    Judged c g address (object? c address g).value.1 (object? c address g).value.2 := by
  rw [object?, value_bind, value_get]
  dsimp only
  cases types : c.analysis.types with
  | none =>
      refine .unguessed fun graph some => ?_
      cases types.symm.trans some
  | some graph =>
  cases guess : (g.types.find? address).bind graph.find? with
  | none =>
      have none : ∀ graph, c.analysis.types = some graph →
          guessedType? graph g address = none := by
        intro graph' same
        cases types.symm.trans same
        exact guess
      cases found : g.types.find? address with
      | none => exact .unguessed none
      | some typeAddress =>
          rw [found, Option.bind_some] at guess
          dsimp only
          rw [guess]
          exact .unguessed none
  | some t =>
      obtain ⟨typeAddress, found, node⟩ := Option.bind_eq_some_iff.mp guess
      rw [found]
      dsimp only
      rw [node]
      dsimp only
      rw [value_bind, value_lift]
      dsimp only
      split
      case isTrue good => exact .kept types guess good
      case isFalse bad => exact .dropped types guess bad

theorem string?_value : (string? c address g).value =
    (guessedText? c g address,
      if guessedText? c g address = none then g.removeString address else g) := by
  rw [string?, value_bind, value_get]
  dsimp only
  cases found : g.strings.find? address with
  | none =>
      have none : guessedText? c g address = none := by
        rw [guessedText?, found]
        rfl
      rw [none, if_pos rfl, Guesses.removeString, GuessCache.remove_of_find?_eq_none found]
      rfl
  | some length =>
      rw [guessedText?, found, Option.map_some, Option.filter_some]
      cases empty : (textAt c address length).isEmpty with
      | true =>
          have unshown := empty
          rw [textAt] at unshown
          dsimp only at unshown ⊢
          rw [if_pos unshown]
          rfl
      | false =>
          have shown := empty
          rw [textAt] at shown
          dsimp only at shown ⊢
          rw [shown, if_neg Bool.false_ne_true]
          rfl

theorem interfaceObject?_cases (typeAddress : UInt64) :
    Interface c typeAddress containing g (interfaceObject? c typeAddress containing g).value.2 := by
  rw [interfaceObject?]
  cases found : containing.bind fun a => readWord? c (a + c.analysis.pointerWidth.toUInt64) with
  | none => exact .unknown
  | some object =>
      dsimp only
      by_cases pointer : minPointer ≤ object
      · rw [if_pos pointer]
        exact .guessed found (object?_cases c (g.addType object typeAddress) object)
      · rw [if_neg pointer]
        exact .unknown

theorem typeOrObject_cases :
    TypeOrObject c address containing g (typeOrObject c address containing g).value.1
      (typeOrObject c address containing g).value.2 := by
  rw [typeOrObject]
  cases types : c.analysis.types with
  | none =>
      have none {graph : TypeGraph} {p : Prop} (some : c.analysis.types = some graph) : p := by
        cases types.symm.trans some
      exact .neither (fun _ => none) (.unguessed fun _ => none)
  | some graph =>
  cases node : graph.find? address with
  | some t =>
      dsimp only
      rw [node]
      refine .type types node ?_ (interfaceObject?_cases c g containing address)
      exact List.append_ne_nil_of_left_ne_nil (List.append_ne_nil_of_left_ne_nil
        (List.append_ne_nil_of_left_ne_nil (by decide) _) _) _
  | none =>
      have unknown : ∀ graph, c.analysis.types = some graph → graph.find? address = none := by
        intro graph' same
        cases types.symm.trans same
        exact node
      have judged := object?_cases c g address
      dsimp only
      rw [node]
      dsimp only
      rw [value_bind]
      generalize (object? c address g).value = outcome at judged ⊢
      obtain ⟨shown, g'⟩ := outcome
      dsimp only at judged ⊢
      cases judged with
      | kept types guess good => exact .object types guess good (List.cons_ne_nil _ _)
      | dropped types guess bad => exact .neither unknown (.dropped types guess bad)
      | unguessed none => exact .neither unknown (.unguessed none)

theorem direct_cases : Direct c address containing g (direct c address containing g).value.1
    (direct c address containing g).value.2 := by
  rw [direct]
  cases inside : c.analysis.functions.find? address with
  | some found =>
      obtain ⟨f, offset⟩ := found
      refine .function inside ?_
      dsimp only
      rw [value_pure]
      cases f.name with
      | nil => exact iff_of_true rfl rfl
      | cons b rest => exact iff_of_false (List.cons_ne_nil _ _) (List.cons_ne_nil _ _)
  | none =>
      have known := typeOrObject_cases c g address containing
      dsimp only
      rw [value_bind]
      generalize (typeOrObject c address containing g).value = outcome at known ⊢
      obtain ⟨line, between⟩ := outcome
      dsimp only at known ⊢
      cases line with
      | cons b rest => exact .explained inside (List.cons_ne_nil _ _) known
      | nil =>
          cases known with
          | type _ _ some => exact absurd rfl some
          | object _ _ _ some => exact absurd rfl some
          | neither unknown judged =>
              have unexplained : Unexplained c g address :=
                ⟨inside, unknown, fun _ _ => judged.refuted⟩
              have same : guessedText? c between address = guessedText? c g address := by
                rw [guessedText?, judged.strings_eq, guessedText?]
              rw [if_pos List.isEmpty_nil, value_bind, string?_value, same]
              cases text : guessedText? c g address with
              | none => exact .silent unexplained text judged
              | some text' => exact .string unexplained text judged

/-- The remark on a value is either about the value itself or, where there is nothing to say about
that, about the word it points to. -/
theorem annotate_cases :
    (Direct c address containing g (annotate c address containing g).value.1
        (annotate c address containing g).value.2 ∧
      ((annotate c address containing g).value.1 = [] → minPointer < address →
        readWord? c address = none)) ∨
      ∃ between word inner, Direct c address containing g [] between ∧ minPointer < address ∧
        readWord? c address = some word ∧
        Direct c word (some address) between inner (annotate c address containing g).value.2 := by
  have first := direct_cases c g address containing
  rw [annotate, value_bind]
  generalize (direct c address containing g).value = outcome at first ⊢
  obtain ⟨line, between⟩ := outcome
  dsimp only at first ⊢
  split
  case isFalse last =>
    refine .inl ⟨first, fun empty above => ?_⟩
    subst empty
    exact absurd ⟨rfl, above⟩ last
  case isTrue again =>
    obtain ⟨empty, above⟩ := again
    cases List.isEmpty_iff.mp empty
    cases found : readWord? c address with
    | none => exact .inl ⟨first, fun _ _ => rfl⟩
    | some word =>
        have second := direct_cases c between word (some address)
        refine .inr ⟨between, word, (direct c word (some address) between).value.1, first, above,
          rfl, ?_⟩
        dsimp only
        rw [value_bind]
        split
        · exact second
        · exact second

end Runs

end Remark

end GoInspect
