import GoInspect.GoType
import Mathlib.Data.List.Forall2

/-!
# The references of a type, kind by kind

What a type refers to is said here once more, by a rule for each kind, so that a statement about the
references of a type does not rest on the function that lists them or on the one that replaces them.
`children_iff` and `pointwise_mapRefs` lead from these two to the rules.
-/

namespace GoInspect

namespace Shape

variable {ρ σ τ : Type}

/-- The references of a shape: parameters before results, and methods and fields in their order. -/
inductive Children : Shape ρ → List ρ → Prop where
  | basic (kind : BasicKind) : Children (.basic kind) []
  | array (elem sliceType : ρ) (length : UInt64) :
      Children (.array elem sliceType length) [elem, sliceType]
  | chan (elem : ρ) (direction : UInt64) : Children (.chan elem direction) [elem]
  | func (inputs outputs : List ρ) (variadic : Bool) :
      Children (.func inputs outputs variadic) (inputs ++ outputs)
  | interface (methods : List (Method ρ)) : Children (.interface methods) (methods.map Method.type)
  | map (key value bucket : ρ) : Children (.map key value bucket) [key, value, bucket]
  | pointer (elem : ρ) : Children (.pointer elem) [elem]
  | slice (elem : ρ) : Children (.slice elem) [elem]
  | struct (fields : List (Field ρ)) : Children (.struct fields) (fields.map Field.type)

theorem children_iff {shape : Shape ρ} {children : List ρ} :
    shape.Children children ↔ children = shape.refs := by
  constructor
  · intro h
    cases h <;> rfl
  · rintro rfl
    cases shape <;> constructor

/-- Two shapes of one kind have the same lengths, directions, names and offsets, and their
references are related one by one. -/
inductive Pointwise (R : ρ → σ → Prop) : Shape ρ → Shape σ → Prop where
  | basic (kind : BasicKind) : Pointwise R (.basic kind) (.basic kind)
  | array {elem sliceType : ρ} {elem' sliceType' : σ} (length : UInt64) :
      R elem elem' → R sliceType sliceType' →
      Pointwise R (.array elem sliceType length) (.array elem' sliceType' length)
  | chan {elem : ρ} {elem' : σ} (direction : UInt64) : R elem elem' →
      Pointwise R (.chan elem direction) (.chan elem' direction)
  | func {inputs outputs : List ρ} {inputs' outputs' : List σ} (variadic : Bool) :
      inputs.Forall₂ R inputs' → outputs.Forall₂ R outputs' →
      Pointwise R (.func inputs outputs variadic) (.func inputs' outputs' variadic)
  | interface {methods : List (Method ρ)} {methods' : List (Method σ)} :
      methods.Forall₂ (fun m m' => m'.name = m.name ∧ R m.type m'.type) methods' →
      Pointwise R (.interface methods) (.interface methods')
  | map {key value bucket : ρ} {key' value' bucket' : σ} :
      R key key' → R value value' → R bucket bucket' →
      Pointwise R (.map key value bucket) (.map key' value' bucket')
  | pointer {elem : ρ} {elem' : σ} : R elem elem' → Pointwise R (.pointer elem) (.pointer elem')
  | slice {elem : ρ} {elem' : σ} : R elem elem' → Pointwise R (.slice elem) (.slice elem')
  | struct {fields : List (Field ρ)} {fields' : List (Field σ)} :
      fields.Forall₂ (fun f f' => f'.name = f.name ∧ f'.offset = f.offset ∧ R f.type f'.type)
        fields' →
      Pointwise R (.struct fields) (.struct fields')

/-- Replacing every reference by one that is related to it. -/
theorem pointwise_mapRefs {R : ρ → σ → Prop} {f : ρ → σ} (related : ∀ r, R r (f r))
    (shape : Shape ρ) : shape.Pointwise R (shape.mapRefs f) := by
  have each {α β : Type} {S : α → β → Prop} {g : α → β} (h : ∀ a, S a (g a)) (l : List α) :
      l.Forall₂ S (l.map g) := List.forall₂_map_right_iff.mpr (List.forall₂_same.mpr fun a _ => h a)
  cases shape with
  | basic kind => exact .basic kind
  | array elem sliceType length => exact .array length (related elem) (related sliceType)
  | chan elem direction => exact .chan direction (related elem)
  | func inputs outputs variadic =>
      exact .func variadic (each related inputs) (each related outputs)
  | interface methods => exact .interface (each (fun m => ⟨rfl, related m.type⟩) methods)
  | map key value bucket => exact .map (related key) (related value) (related bucket)
  | pointer elem => exact .pointer (related elem)
  | slice elem => exact .slice (related elem)
  | struct fields => exact .struct (each (fun f => ⟨rfl, rfl, related f.type⟩) fields)

@[simp] theorem mapRefs_mapRefs (f : ρ → σ) (g : σ → τ) (s : Shape ρ) :
    (s.mapRefs f).mapRefs g = s.mapRefs (g ∘ f) := by
  cases s <;> simp [mapRefs, Function.comp_def]

end Shape

end GoInspect
