import GoInspect.TypeGraph
import Mathlib.Data.Set.Card

/-!
# Looking up types

What an insertion and the resolution of references do to the look-up by address. Everything else
about graphs goes through these equations, so that the maps behind a graph stay out of sight.
-/

namespace GoInspect

namespace TypeGraph

variable (g : TypeGraph)

theorem contains_eq_isSome_find? (address : UInt64) :
    g.contains address = (g.find? address).isSome := by
  rw [find?, Option.isSome_map]
  exact Std.TreeMap.contains_eq_isSome_getElem?

theorem contains_iff_exists {g : TypeGraph} {address : UInt64} :
    g.contains address = true ↔ ∃ t, g.find? address = some t := by
  rw [contains_eq_isSome_find?, Option.isSome_iff_exists]

@[simp] theorem node?_empty (address : UInt64) : empty.node? address = none :=
  Std.TreeMap.getElem?_emptyc

@[simp] theorem find?_empty (address : UInt64) : empty.find? address = none := by
  rw [find?, node?_empty, Option.map_none]

@[simp] theorem contains_empty (address : UInt64) : empty.contains address = false := by
  rw [contains_eq_isSome_find?, find?_empty]
  rfl

theorem node?_insert (address : UInt64) (t : GoType) (other : UInt64) :
    (g.insert address t).node? other =
      if address = other then some ⟨g.places.size, t⟩ else g.node? other := by
  simp only [node?, insert]
  simp only [Std.TreeMap.getElem?_insert, Std.LawfulEqCmp.compare_eq_iff_eq]

theorem find?_insert (address : UInt64) (t : GoType) (other : UInt64) :
    (g.insert address t).find? other = if address = other then some t else g.find? other := by
  rw [find?, node?_insert, apply_ite (Option.map _), Option.map_some, find?]

/-- A type at a new address adds to those that are there. -/
theorem size_insert {g : TypeGraph} {address : UInt64} {t : GoType}
    (new : g.contains address = false) : (g.insert address t).size = g.size + 1 := by
  rw [contains] at new
  rw [size, insert, Std.TreeMap.size_insert, new, size]
  rfl

theorem node?_resolved (address : UInt64) :
    g.resolved.node? address =
      (g.node? address).map fun node => { node with type := node.type.resolve g.contains } := by
  simp only [node?, resolved]
  simp only [Std.TreeMap.getElem?_map]

theorem find?_resolved (address : UInt64) :
    g.resolved.find? address = (g.find? address).map fun t => t.resolve g.contains := by
  rw [find?, node?_resolved, find?, Option.map_map, Option.map_map]
  rfl

@[simp] theorem contains_resolved (address : UInt64) :
    g.resolved.contains address = g.contains address := by
  rw [contains_eq_isSome_find?, find?_resolved, Option.isSome_map, contains_eq_isSome_find?]

/-- The list of types holds what is found by address, and nothing else. -/
theorem mem_toList_iff {g : TypeGraph} {address : UInt64} {t : GoType} :
    (address, t) ∈ g.toList ↔ g.find? address = some t := by
  rw [toList, find?, Option.map_eq_some_iff, List.mem_map]
  constructor
  · rintro ⟨⟨_, node⟩, mem, same⟩
    cases same
    exact ⟨node, Std.TreeMap.mem_toList_iff_getElem?_eq_some.mp mem, rfl⟩
  · rintro ⟨node, found, rfl⟩
    exact ⟨(address, node), Std.TreeMap.mem_toList_iff_getElem?_eq_some.mpr found, rfl⟩

theorem length_toList : g.toList.length = g.size := by
  rw [toList, List.length_map]
  exact Std.TreeMap.length_toList

/-- The addresses in the list increase, so that none is in it twice. -/
theorem pairwise_toList (g : TypeGraph) : g.toList.Pairwise fun x y => x.1 < y.1 := by
  rw [toList, List.pairwise_map]
  refine Std.TreeMap.ordered_keys_toList.imp ?_
  intro x y lt
  exact Std.compare_eq_lt.mp lt

/-- The type stands in the graph at some address. -/
def IsNode (t : GoType) : Prop := ∃ address, g.find? address = some t

theorem setOf_isNode : {t | g.IsNode t} = Prod.snd '' {x | x ∈ g.toList} := by
  ext t
  constructor
  · rintro ⟨address, found⟩
    exact ⟨(address, t), mem_toList_iff.mpr found, rfl⟩
  · rintro ⟨⟨address, t'⟩, mem, rfl⟩
    exact ⟨address, mem_toList_iff.mp mem⟩

theorem finite_isNode : {t | g.IsNode t}.Finite := by
  rw [setOf_isNode]
  exact (List.finite_toSet _).image _

theorem ncard_isNode_le : {t | g.IsNode t}.ncard ≤ g.size := by
  classical
  rw [setOf_isNode]
  calc (Prod.snd '' {x | x ∈ g.toList}).ncard
      ≤ {x | x ∈ g.toList}.ncard := Set.ncard_image_le (List.finite_toSet _)
    _ ≤ g.toList.length := by
        rw [← List.coe_toFinset, Set.ncard_coe_finset]
        exact List.toFinset_card_le _
    _ = g.size := g.length_toList

/-- Resolved references lead from nodes to nodes. -/
theorem IsNode.deref? {g : TypeGraph} {t e : GoType} {r : TypeRef GoType}
    (node : g.resolved.IsNode t) (mem : r ∈ t.shape.refs) (found : g.resolved.deref? r = some e) :
    g.resolved.IsNode e := by
  obtain ⟨address, there⟩ := node
  rw [find?_resolved] at there
  obtain ⟨t', _, rfl⟩ := Option.map_eq_some_iff.mp there
  simp only [GoType.shape, GoType.resolve, Shape.refs_mapRefs, List.mem_map] at mem
  obtain ⟨r', _, rfl⟩ := mem
  obtain ⟨handle, target, lookup⟩ := Option.bind_eq_some_iff.mp found
  dsimp only at target
  split at target
  · cases target
    exact ⟨r'.address, lookup⟩
  · cases target

/-- A graph is empty exactly when no address leads to a type. -/
theorem isEmpty_iff {g : TypeGraph} :
    g.isEmpty = true ↔ ∀ address, g.contains address = false :=
  Std.TreeMap.isEmpty_iff_forall_contains

end TypeGraph

end GoInspect
