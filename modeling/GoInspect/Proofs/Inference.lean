import GoInspect.Inference
import GoInspect.Proofs.FunctionTable.Lookup
import GoInspect.Proofs.GuessCache
import Mathlib.Logic.Relation

/-!
# How guesses change

Guesses are made in several places, but always in one of a few ways. `Change` lists these ways with
everything that is known of what is guessed; what is true of guesses at any time follows from it.
-/

namespace GoInspect

open Relation

namespace Guesses

/-- One change to the guesses about a program with these functions and types. -/
inductive Change (functions : FunctionTable) (types : Option TypeGraph) :
    Guesses → Guesses → Prop where
  | addType {graph : TypeGraph} {t : GoType} {object address : UInt64} (g : Guesses) :
      types = some graph → graph.find? address = some t → minPointer ≤ object →
      Change functions types g (g.addType object address)
  | addString {address length : UInt64} (g : Guesses) : minPointer ≤ address →
      length < minPointer → Change functions types g (g.addString address length)
  | removeType (object : UInt64) (g : Guesses) : Change functions types g (g.removeType object)
  | removeString (address : UInt64) (g : Guesses) :
      Change functions types g (g.removeString address)
  | enter {f : FunctionEntry} (g : Guesses) : f ∈ functions.functions →
      Change functions types g { g with previous := some f.entry }

/-- Any number of changes. -/
abbrev Changes (functions : FunctionTable) (types : Option TypeGraph) :
    Guesses → Guesses → Prop :=
  ReflTransGen (Change functions types)

end Guesses

namespace Inference

variable (c : Context) (p : Stop)

theorem guessType_changes {graph : TypeGraph} {t : GoType} {address : UInt64}
    (types : c.types = some graph) (node : graph.find? address = some t) (register : Text)
    (g : Guesses) :
    Guesses.Changes c.functions c.types g (guessType p register address t g).value := by
  rw [guessType]
  cases p.register? register with
  | none => exact .refl
  | some object =>
      dsimp only
      by_cases pointer : minPointer ≤ object
      · rw [if_pos pointer]
        exact .single (.addType g types node pointer)
      · rw [if_neg pointer]
        exact .refl

theorem guessPair_changes (first second : Text) (g : Guesses) :
    Guesses.Changes c.functions c.types g (guessPair c p first second g).value := by
  rw [guessPair]
  cases p.register? first with
  | none => exact .refl
  | some value =>
      dsimp only
      cases found : c.types.bind (·.find? value) with
      | some t =>
          obtain ⟨graph, types, node⟩ := Option.bind_eq_some_iff.mp found
          exact guessType_changes c p types node second g
      | none =>
          dsimp only
          cases p.register? second with
          | none => exact .refl
          | some length =>
              dsimp only
              by_cases text : minPointer ≤ value ∧ length < minPointer
              · rw [if_pos text]
                exact .single (.addString g text.1 text.2)
              · rw [if_neg text]
                exact .refl

theorem guessPairs_changes (registers : List Text) (g : Guesses) :
    Guesses.Changes c.functions c.types g (guessPairs c p registers g).value := by
  induction registers generalizing g with
  | nil => exact .refl
  | cons first rest ih =>
      cases rest with
      | nil => exact .refl
      | cons second rest => exact (guessPair_changes c p first second g).trans (ih _)

theorem guessReceiver_changes (g : Guesses) :
    Guesses.Changes c.functions c.types g (guessReceiver c p g).value := by
  rw [guessReceiver]
  split
  · rename_i f offset types stopped known
    by_cases again : g.previous = some f.entry
    · rw [if_pos again]
      exact .refl
    · rw [if_neg again]
      obtain ⟨pc, _, found⟩ := Option.bind_eq_some_iff.mp stopped
      have entered : Guesses.Change c.functions c.types g { g with previous := some f.entry } :=
        .enter g (FunctionTable.mem_of_find? found).1
      dsimp only
      cases Receiver.typeName? f.name with
      | none => exact .single entered
      | some name =>
          dsimp only
          cases types.addressOfName? name with
          | none => exact .single entered
          | some address =>
              dsimp only
              split
              · rename_i t first _ node _
                exact .head entered (guessType_changes c p known node first _)
              · exact .single entered
  · exact .refl

theorem onStop_changes (g : Guesses) :
    Guesses.Changes c.functions c.types g (onStop c p g).value := by
  rw [onStop]
  split
  · exact (guessPairs_changes c p _ g).trans (guessReceiver_changes c p _)
  · exact .refl

end Inference

end GoInspect
