import GoInspect.Proofs.Inference
import GoInspect.Remark

/-!
# How remarks change the guesses

A remark drops guesses that turn out wrong and adds the type of an interface value. The contracts of
the steps are put together by the same rules as the steps themselves.
-/

namespace GoInspect

namespace Remark

/-- A step changes the guesses in the known ways only. -/
def Keeps (a : Analysis) {α : Type} (step : Remarking α) : Prop :=
  ∀ g, Guesses.Changes a.functions a.types g (step g).value.2

namespace Keeps

variable {a : Analysis} {α β : Type}

theorem pure (x : α) : Keeps a (pure x) := fun _ => .refl

theorem get : Keeps a get := fun _ => .refl

theorem note (e : Event) : Keeps a (note e) := fun _ => .refl

theorem lift (x : Logged α) : Keeps a (x : Remarking α) := fun _ => .refl

theorem modify {f : Guesses → Guesses} (change : ∀ g, Guesses.Change a.functions a.types g (f g)) :
    Keeps a (modify f) := fun g => .single (change g)

theorem bind {step : Remarking α} {next : α → Remarking β} (first : Keeps a step)
    (then' : ∀ x, Keeps a (next x)) : Keeps a (step >>= next) :=
  fun g => (first g).trans (then' _ _)

theorem ite {p : Prop} [Decidable p] {step step' : Remarking α} (first : Keeps a step)
    (second : Keeps a step') : Keeps a (if p then step else step') := by
  split
  · exact first
  · exact second

end Keeps

variable (c : Context)

theorem object?_keeps (address : UInt64) : Keeps c.analysis (object? c address) := by
  refine .bind .get fun guesses => ?_
  split
  · split
    · exact .pure _
    · refine .bind (.lift _) fun value => ?_
      refine .ite (.pure _) (.bind (.note _) fun _ => .bind (.modify fun g => ?_) fun _ => .pure _)
      exact .removeType address g
  · exact .pure _

theorem string?_keeps (address : UInt64) : Keeps c.analysis (string? c address) := by
  refine .bind .get fun guesses => ?_
  split
  · exact .pure _
  · refine .ite (.bind (.note _) fun _ => .bind (.modify fun g => ?_) fun _ => .pure _) (.pure _)
    exact .removeString address g

theorem interfaceObject?_keeps {graph : TypeGraph} {t : GoType} {address : UInt64}
    (types : c.analysis.types = some graph) (node : graph.find? address = some t)
    (containing : Option UInt64) : Keeps c.analysis (interfaceObject? c address containing) := by
  rw [interfaceObject?]
  split
  · exact .pure _
  · rename_i object _
    by_cases pointer : minPointer ≤ object
    · rw [if_pos pointer]
      refine .bind (.modify fun g => ?_) fun _ => .bind (object?_keeps c object) fun _ => .pure _
      exact .addType g types node pointer
    · rw [if_neg pointer]
      exact .pure _

theorem typePointer_keeps {graph : TypeGraph} {t : GoType} {address : UInt64}
    (types : c.analysis.types = some graph) (node : graph.find? address = some t)
    (containing : Option UInt64) : Keeps c.analysis (typePointer c graph t address containing) :=
  .bind (interfaceObject?_keeps c types node containing) fun _ => .pure _

theorem typeOrObject_keeps (value : UInt64) (containing : Option UInt64) :
    Keeps c.analysis (typeOrObject c value containing) := by
  rw [typeOrObject]
  split
  · exact .pure _
  · rename_i graph types
    split
    · rename_i t node
      exact typePointer_keeps c types node containing
    · refine .bind (object?_keeps c value) fun shown => ?_
      cases shown <;> exact .pure _

theorem direct_keeps (value : UInt64) (containing : Option UInt64) :
    Keeps c.analysis (direct c value containing) := by
  rw [direct]
  split
  · exact .pure _
  · refine .bind (typeOrObject_keeps c value containing) fun line => ?_
    refine .ite (.bind (string?_keeps c value) fun shown => ?_) (.pure _)
    cases shown <;> exact .pure _

theorem annotate_keeps (value : UInt64) (containing : Option UInt64) :
    Keeps c.analysis (annotate c value containing) := by
  refine .bind (direct_keeps c value containing) fun line => ?_
  refine .ite ?_ (.pure _)
  split
  · exact .pure _
  · rename_i target _
    exact .bind (direct_keeps c target (some value)) fun inner => .ite (.pure _) (.pure _)

end Remark

end GoInspect
