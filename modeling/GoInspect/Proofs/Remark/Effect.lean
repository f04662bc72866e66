import GoInspect.Proofs.Remark.Direct

/-!
# What a remark does to the guesses

A remark on a value looks at the guesses about the value and, if nothing is known about that, at
those about the word it points to. Guesses that do not hold up are dropped, and an interface value
adds one, which is looked at in turn. `Effect` says what becomes of every guess, whichever of the
addresses happen to be the same.
-/

namespace GoInspect

namespace Remark

open GuessCache

variable {c : Context} {g g' between : Guesses} {address : UInt64} {containing : Option UInt64}
  {line : Text}

section Types

/-- The types of objects change at some addresses only. What is new is plausible. -/
structure Retyped (c : Context) (places : UInt64 → Prop) (before after : GuessCache UInt64) :
    Prop where
  added : ∀ key type, after.find? key = some type → before.find? key = some type ∨
    ∃ graph t, c.analysis.types = some graph ∧ graph.find? type = some t ∧ Plausible c graph t key
  kept : ∀ key, ¬places key → after.find? key = before.find? key ∨ Evicted before after key

variable {places places' : UInt64 → Prop} {caches : GuessCache UInt64}

theorem Retyped.refl : Retyped c places caches caches where
  added := fun _ _ found => .inl found
  kept := fun _ _ => .inl rfl

theorem Retyped.mono {before after : GuessCache UInt64} (h : Retyped c places before after)
    (weaker : ∀ key, places key → places' key) : Retyped c places' before after where
  added := h.added
  kept := fun key outside => h.kept key fun inside => outside (weaker key inside)

theorem Judged.retyped {shown : Option (Text × Text)} (h : Judged c g address shown g')
    (distinct : g.Distinct) : Retyped c (· = address) g.types g'.types where
  added := by
    intro key type found
    by_cases same : key = address
    · subst same
      exact .inl (h.find?_self distinct found)
    · rw [h.find?_of_ne same] at found
      exact .inl found
  kept := fun _ ne => .inl (h.find?_of_ne ne)

/-- A guess that was dropped leaves room, so that no other one has to give way to the next. -/
theorem Judged.trans_retyped {shown : Option (Text × Text)} {after : GuessCache UInt64}
    (h : Judged c g address shown g') (distinct : g.Distinct)
    (later : Retyped c places g'.types after) :
    Retyped c (fun key => key = address ∨ places key) g.types after where
  added := by
    intro key type found
    obtain before | good := later.added key type found
    · exact (h.retyped distinct).added key type before
    · exact .inr good
  kept := by
    intro key outside
    have ne : key ≠ address := fun same => outside (.inl same)
    obtain same | evicted := later.kept key fun inside => outside (.inr inside)
    · exact .inl (same.trans (h.find?_of_ne ne))
    · rw [h.eq_of_full evicted.full] at evicted
      exact .inr evicted

/-- The guess about the object of an interface value is a plausible one. -/
theorem Interface.retyped {graph : TypeGraph} {t : GoType} (h : Interface c address containing g g')
    (distinct : g.Distinct) (types : c.analysis.types = some graph)
    (node : graph.find? address = some t) :
    Retyped c (dataWord? c containing = some ·) g.types g'.types := by
  cases h with
  | unknown => exact .refl
  | @guessed object shown _ word judged =>
      have distinct' := distinct.addType object address
      constructor
      case added =>
        intro key type found
        by_cases same : key = object
        · subst same
          have there := judged.find?_self distinct' found
          cases distinct.types.find?_add_self there
          have guess : guessedType? graph g' key = some t := by
            rw [guessedType?, found]
            exact node
          exact .inr ⟨graph, t, types, node, judged.checked distinct' types guess⟩
        · rw [judged.find?_of_ne same] at found
          obtain kept | evicted := distinct.types.find?_add_of_ne same address
          · exact .inl (kept.symm.trans found)
          · cases evicted.gone.symm.trans found
      case kept =>
        intro key outside
        have ne : key ≠ object := fun same => outside (same ▸ word)
        obtain kept | evicted := distinct.types.find?_add_of_ne ne address
        · exact .inl ((judged.find?_of_ne ne).trans kept)
        · exact .inr ⟨evicted.full, evicted.oldest, (judged.find?_of_ne ne).trans evicted.gone⟩

theorem Direct.retyped (h : Direct c address containing g line g') (distinct : g.Distinct) :
    Retyped c (fun key => key = address ∨ dataWord? c containing = some key) g.types g'.types := by
  cases h with
  | function => exact .refl
  | explained _ _ known =>
      cases known with
      | type types node _ interface =>
          exact (interface.retyped distinct types node).mono fun _ => .inr
      | object => exact .refl
      | neither _ judged => exact (judged.retyped distinct).mono fun _ => .inl
  | string _ _ judged => exact (judged.retyped distinct).mono fun _ => .inl
  | silent _ _ judged => exact (judged.retyped distinct).mono fun _ => .inl

end Types

section Direct

theorem Interface.others_eq (h : Interface c address containing g g') :
    g'.strings = g.strings ∧ g'.previous = g.previous := by
  cases h with
  | unknown => exact ⟨rfl, rfl⟩
  | guessed _ judged => exact ⟨judged.strings_eq, judged.previous_eq⟩

/-- Apart from what is guessed about types, at most the guess about the string at the address is
lost. -/
theorem Direct.others_eq (h : Direct c address containing g line g') :
    g'.previous = g.previous ∧ (g'.strings = g.strings ∨
      Unexplained c g address ∧ guessedText? c g address = none ∧
        g'.strings = g.strings.remove address) := by
  cases h with
  | function => exact ⟨rfl, .inl rfl⟩
  | explained _ _ known =>
      cases known with
      | type _ _ _ interface => exact ⟨interface.others_eq.2, .inl interface.others_eq.1⟩
      | object => exact ⟨rfl, .inl rfl⟩
      | neither _ judged => exact ⟨judged.previous_eq, .inl judged.strings_eq⟩
  | string _ _ judged => exact ⟨judged.previous_eq, .inl judged.strings_eq⟩
  | silent unexplained untold judged =>
      refine ⟨judged.previous_eq, .inr ⟨unexplained, untold, ?_⟩⟩
      rw [Guesses.removeString, judged.strings_eq]

theorem Direct.distinct (h : Direct c address containing g line g') (distinct : g.Distinct) :
    g'.Distinct := by
  cases h with
  | function => exact distinct
  | explained _ _ known =>
      cases known with
      | type _ _ _ interface =>
          cases interface with
          | unknown => exact distinct
          | guessed _ judged => exact judged.distinct (distinct.addType _ _)
      | object => exact distinct
      | neither _ judged => exact judged.distinct distinct
  | string _ _ judged => exact judged.distinct distinct
  | silent _ _ judged => exact (judged.distinct distinct).removeString address

theorem Direct.strings (h : Direct c address containing g line g') (distinct : g.Distinct)
    (key : UInt64) : g'.strings.find? key = g.strings.find? key ∨
      key = address ∧ Unexplained c g address ∧ guessedText? c g address = none ∧
        g'.strings.find? key = none := by
  obtain ⟨_, same | ⟨unexplained, untold, removed⟩⟩ := h.others_eq
  · exact .inl (by rw [same])
  · rw [removed]
    by_cases same : key = address
    · subst same
      exact .inr ⟨rfl, unexplained, untold, distinct.strings.find?_remove_self key⟩
    · exact .inl (find?_remove_of_ne same)

theorem shownText_ne_nil (text : Text) : shownText text ≠ [] :=
  List.append_ne_nil_of_left_ne_nil (List.append_ne_nil_of_left_ne_nil (by decide) _) _

theorem TypeOrObject.explains (h : TypeOrObject c address containing g line g')
    (some : line ≠ []) : ¬Unexplained c g address := by
  intro unexplained
  cases h with
  | type types node => cases (unexplained.type _ types).symm.trans node
  | object types guess good => exact unexplained.object _ _ types guess good
  | neither => exact some rfl

/-- What is said of an address that nothing else is known about depends on the guess about a string
there. -/
theorem Direct.of_unexplained (h : Direct c address containing g line g')
    (unexplained : Unexplained c g address) :
    line = ((guessedText? c g address).map shownText).getD [] ∧
      (guessedText? c g address = none → g'.strings = g.strings.remove address) := by
  cases h with
  | function inside => cases unexplained.function.symm.trans inside
  | explained _ some known => exact absurd unexplained (known.explains some)
  | string _ told _ =>
      rw [told]
      exact ⟨rfl, nofun⟩
  | silent _ untold judged =>
      rw [untold, Guesses.removeString, judged.strings_eq]
      exact ⟨rfl, fun _ => rfl⟩

theorem Direct.hidden (h : Direct c address containing g line g') (distinct : g.Distinct)
    (unexplained : Unexplained c g address) (untold : guessedText? c g address = none) :
    g'.strings.find? address = none := by
  rw [(h.of_unexplained unexplained).2 untold]
  exact distinct.strings.find?_remove_self address

theorem Direct.quiet_iff (h : Direct c address containing g line g') :
    line = [] ↔ Quiet c g address := by
  cases h with
  | @function f offset _ inside nameless =>
      refine nameless.trans ⟨fun empty => .inl ⟨f, offset, inside, empty⟩, ?_⟩
      rintro (⟨_, _, inside', empty⟩ | ⟨unexplained, _⟩)
      · cases inside.symm.trans inside'
        exact empty
      · cases inside.symm.trans unexplained.function
  | explained outside some known =>
      refine iff_of_false some ?_
      rintro (⟨_, _, inside, _⟩ | ⟨unexplained, _⟩)
      · cases outside.symm.trans inside
      · exact known.explains some unexplained
  | string unexplained told _ =>
      refine iff_of_false (shownText_ne_nil _) ?_
      rintro (⟨_, _, inside, _⟩ | ⟨_, untold⟩)
      · cases unexplained.function.symm.trans inside
      · cases told.symm.trans untold
  | silent unexplained untold _ => exact iff_of_true rfl (.inr ⟨unexplained, untold⟩)

theorem Direct.checked {graph : TypeGraph} {t : GoType} (h : Direct c address containing g line g')
    (distinct : g.Distinct) (types : c.analysis.types = some graph)
    (outside : c.analysis.functions.find? address = none) (unknown : graph.find? address = none)
    (guess : guessedType? graph g' address = some t) : Plausible c graph t address := by
  cases h with
  | function inside => cases outside.symm.trans inside
  | explained _ _ known =>
      cases known with
      | type types' node =>
          cases types.symm.trans types'
          cases unknown.symm.trans node
      | object types' guess' good =>
          cases types.symm.trans types'
          cases guess.symm.trans guess'
          exact good
      | neither _ judged => exact judged.checked distinct types guess
  | string _ _ judged => exact judged.checked distinct types guess
  | silent _ _ judged => exact judged.checked distinct types guess

end Direct

section Quiet

variable {word : UInt64}

theorem Judged.unexplained_iff (h : Judged c g address none g') (distinct : g.Distinct)
    (unexplained : Unexplained c g address) : Unexplained c g' word ↔ Unexplained c g word := by
  by_cases same : word = address
  · subst same
    refine iff_of_true ⟨unexplained.function, unexplained.type, ?_⟩ unexplained
    intro graph t types guess
    obtain ⟨type, found, node⟩ := Option.bind_eq_some_iff.mp guess
    apply unexplained.object graph t types
    rw [guessedType?, h.find?_self distinct found]
    exact node
  · have guess (graph : TypeGraph) : guessedType? graph g' word = guessedType? graph g word := by
      rw [guessedType?, h.find?_of_ne same, guessedType?]
    constructor
    · refine fun u => ⟨u.function, u.type, fun graph t types found => ?_⟩
      exact u.object graph t types ((guess graph).trans found)
    · refine fun u => ⟨u.function, u.type, fun graph t types found => ?_⟩
      exact u.object graph t types ((guess graph).symm.trans found)

/-- Where nothing is said of an address, what is known about any address stays so. -/
theorem Direct.unexplained_iff (h : Direct c address containing g line g') (distinct : g.Distinct)
    (empty : line = []) : Unexplained c g' word ↔ Unexplained c g word := by
  cases h with
  | function => exact Iff.rfl
  | explained _ some => exact absurd empty some
  | string => exact absurd empty (shownText_ne_nil _)
  | @silent between unexplained _ judged =>
      refine Iff.trans ?_ (judged.unexplained_iff distinct unexplained)
      exact ⟨fun u => ⟨u.function, u.type, u.object⟩, fun u => ⟨u.function, u.type, u.object⟩⟩

theorem Direct.guessedText?_eq (h : Direct c address containing g line g') (distinct : g.Distinct)
    (empty : line = []) : guessedText? c g' word = guessedText? c g word := by
  cases h with
  | function => rfl
  | explained _ some => exact absurd empty some
  | string => exact absurd empty (shownText_ne_nil _)
  | silent _ untold judged =>
      have removed : (Guesses.removeString _ address).strings = g.strings.remove address :=
        congrArg (GuessCache.remove · address) judged.strings_eq
      by_cases same : word = address
      · subst same
        rw [untold, guessedText?, removed, distinct.strings.find?_remove_self]
        rfl
      · rw [guessedText?, removed, find?_remove_of_ne same, guessedText?]

theorem Direct.trans_retyped {places : UInt64 → Prop} {after : GuessCache UInt64}
    (h : Direct c address containing g line g') (distinct : g.Distinct) (empty : line = [])
    (later : Retyped c places g'.types after) :
    Retyped c (fun key => key = address ∨ places key) g.types after := by
  cases h with
  | function => exact later.mono fun _ => .inr
  | explained _ some => exact absurd empty some
  | string => exact absurd empty (shownText_ne_nil _)
  | silent _ _ judged => exact judged.trans_retyped distinct later

end Quiet

section Effect

/-- The guess about a string at an address is consulted by the remark on a value. -/
structure Consulted (c : Context) (g : Guesses) (value address : UInt64) : Prop where
  reached : address = value ∨
    Quiet c g value ∧ minPointer < value ∧ readWord? c value = some address
  unexplained : Unexplained c g address

/-- What the remark on a value does to the guesses. -/
structure Effect (c : Context) (value : UInt64) (containing : Option UInt64) (g : Guesses)
    (line : Text) (g' : Guesses) : Prop where
  /-- A guess about a type that was not there before is plausible. -/
  added : ∀ key type, g'.types.find? key = some type → g.types.find? key ≠ some type →
    ∃ graph t, c.analysis.types = some graph ∧ graph.find? type = some t ∧ Plausible c graph t key
  /-- The type that the value is guessed to be the address of an object of is plausible, unless the
  value lies in a function or is the address of a type. -/
  checked : ∀ graph t, c.analysis.types = some graph → c.analysis.functions.find? value = none →
    graph.find? value = none → guessedType? graph g' value = some t → Plausible c graph t value
  /-- A guessed string that is shown is kept. -/
  shown : ∀ text, Unexplained c g value → guessedText? c g value = some text →
    line = shownText text ∧ g'.strings.find? value = g.strings.find? value
  /-- A guess about a string that was consulted and could not be shown is gone. -/
  hidden : ∀ address, Consulted c g value address → guessedText? c g address = none →
    g'.strings.find? address = none
  /-- Guesses about types are kept, but for those about the value, the word it points to and the
  objects of interface values, and for the oldest one if there was no room. -/
  types : ∀ key, key ≠ value → readWord? c value ≠ some key → dataWord? c containing ≠ some key →
    dataWord? c (some value) ≠ some key →
    g'.types.find? key = g.types.find? key ∨ Evicted g.types g'.types key
  /-- Guesses about strings are kept, but for those that were consulted and could not be shown. -/
  strings : ∀ address, g'.strings.find? address = g.strings.find? address ∨
    Consulted c g value address ∧ guessedText? c g address = none ∧
      g'.strings.find? address = none
  /-- The function that was entered last is the same. -/
  previous : g'.previous = g.previous
  distinct : g'.Distinct

variable {value word : UInt64} {inner : Text}

/-- Nothing but the value itself was remarked on. -/
theorem Direct.effect (h : Direct c value containing g line g') (distinct : g.Distinct)
    (last : line = [] → minPointer < value → readWord? c value = none) :
    Effect c value containing g line g' := by
  have retyped := h.retyped distinct
  constructor
  case added =>
    intro key type found new
    exact (retyped.added key type found).resolve_left new
  case checked =>
    intro graph t types outside unknown guess
    exact h.checked distinct types outside unknown guess
  case shown =>
    intro text unexplained told
    have said := (h.of_unexplained unexplained).1
    rw [told] at said
    refine ⟨said, (h.strings distinct value).resolve_right ?_⟩
    rintro ⟨_, _, untold, _⟩
    cases told.symm.trans untold
  case hidden =>
    rintro address ⟨rfl | ⟨quiet, above, found⟩, unexplained⟩ untold
    · exact h.hidden distinct unexplained untold
    · cases (last (h.quiet_iff.mpr quiet) above).symm.trans found
  case types =>
    intro key ne _ outside _
    exact retyped.kept key fun inside => inside.elim ne outside
  case strings =>
    intro address
    refine (h.strings distinct address).imp_right ?_
    rintro ⟨rfl, unexplained, untold, gone⟩
    exact ⟨⟨.inl rfl, unexplained⟩, untold, gone⟩
  case previous => exact h.others_eq.1
  case distinct => exact h.distinct distinct

/-- Nothing was said of the value itself, and the word it points to was remarked on. -/
theorem Direct.effect_of_word (first : Direct c value containing g [] between)
    (distinct : g.Distinct) (above : minPointer < value) (found : readWord? c value = some word)
    (second : Direct c word (some value) between inner g') :
    Effect c value containing g line g' := by
  have distinct' := first.distinct distinct
  have later := second.retyped distinct'
  have retyped := first.trans_retyped distinct rfl later
  constructor
  case added =>
    intro key type found new
    exact (retyped.added key type found).resolve_left new
  case checked =>
    intro graph t types outside unknown guess
    obtain ⟨type, found, node⟩ := Option.bind_eq_some_iff.mp guess
    obtain before | ⟨graph', t', types', node', good⟩ := later.added value type found
    · refine first.checked distinct types outside unknown ?_
      rw [guessedType?, before]
      exact node
    · cases types.symm.trans types'
      cases node.symm.trans node'
      exact good
  case shown =>
    intro text unexplained told
    have said := (first.of_unexplained unexplained).1
    rw [told] at said
    exact absurd said.symm (shownText_ne_nil text)
  case hidden =>
    rintro address ⟨rfl | ⟨_, _, found'⟩, unexplained⟩ untold
    · have gone := first.hidden distinct unexplained untold
      obtain same | ⟨_, _, _, gone'⟩ := second.strings distinct' address
      · exact same.trans gone
      · exact gone'
    · cases found.symm.trans found'
      have unexplained' := (first.unexplained_iff distinct rfl).mpr unexplained
      rw [← first.guessedText?_eq distinct rfl] at untold
      exact second.hidden distinct' unexplained' untold
  case types =>
    intro key ne other _ outside
    refine retyped.kept key ?_
    rintro (same | same | inside)
    · exact ne same
    · exact other (same ▸ found)
    · exact outside inside
  case strings =>
    intro address
    obtain same | ⟨rfl, unexplained, untold, gone⟩ := second.strings distinct' address
    · obtain same' | ⟨rfl, unexplained, untold, gone⟩ := first.strings distinct address
      · exact .inl (same.trans same')
      · exact .inr ⟨⟨.inl rfl, unexplained⟩, untold, same.trans gone⟩
    · have reached := (first.unexplained_iff distinct rfl).mp unexplained
      rw [first.guessedText?_eq distinct rfl] at untold
      exact .inr ⟨⟨.inr ⟨first.quiet_iff.mp rfl, above, found⟩, reached⟩, untold, gone⟩
  case previous => exact second.others_eq.1.trans first.others_eq.1
  case distinct => exact second.distinct distinct'

/-- What a remark does to the guesses. Afterwards every guess about a type that was not there before
is plausible, and so is the one about the value. A guessed string that is shown is kept, and one
that was consulted in vain is gone. All other guesses are kept, except for the oldest one about a
type if the cache was full. -/
theorem annotate_effect (distinct : g.Distinct) (value : UInt64) (containing : Option UInt64) :
    Effect c value containing g (annotate c value containing g).value.1
      (annotate c value containing g).value.2 := by
  obtain ⟨h, last⟩ | ⟨between, word, inner, first, above, found, second⟩ :=
    annotate_cases c g value containing
  · exact h.effect distinct last
  · exact first.effect_of_word distinct above found second

/-- An address that leads to itself. -/
def selfBlock : Bytes := (littleEndianBytes 8 0x2000).toArray

def selfContext : Context where
  analysis := ⟨⟨#[], 0, 0, ⟨20, 20⟩, 8, 1⟩, none⟩
  memory := (MappedMemory.map ⟨∅, 0⟩ 0x2000 selfBlock).toMemory
  settings := {}

/-- A string is guessed that is longer than what is mapped. -/
def selfGuesses : Guesses := Guesses.empty.addString 0x2000 64

/-- The guess is dropped before the word is looked at, which is the same address. -/
theorem annotate_effect_self : selfGuesses.Distinct ∧
    Consulted selfContext selfGuesses 0x2000 0x2000 ∧
    selfGuesses.strings.find? 0x2000 = some 64 ∧
    (annotate selfContext 0x2000 none selfGuesses).value.2.strings.find? 0x2000 = none := by
  have distinct : selfGuesses.Distinct := Guesses.distinct_empty.addString 0x2000 64
  have found : selfGuesses.strings.find? 0x2000 = some 64 := by decide +kernel
  have untold : guessedText? selfContext selfGuesses 0x2000 = none := by
    have unreadable : textAt selfContext 0x2000 64 = [] := by decide +kernel
    rw [guessedText?, found, Option.map_some, unreadable]
    rfl
  have typeless (graph : TypeGraph) : selfContext.analysis.types ≠ some graph :=
    (Option.some_ne_none graph).symm
  have consulted : Consulted selfContext selfGuesses 0x2000 0x2000 :=
    ⟨.inl rfl, rfl, fun graph types => absurd types (typeless graph),
      fun graph _ types => absurd types (typeless graph)⟩
  exact ⟨distinct, consulted, found,
    (annotate_effect distinct 0x2000 none).hidden 0x2000 consulted untold⟩

end Effect

end Remark

end GoInspect
