import GoInspect.Proofs.TypeGraph.Basic
import Mathlib.Data.List.Nodup

/-!
# The indexes of a graph

A graph is asked for a type by its address or by its name, and for the address of a type that was
found. Each of these questions has a map of its own, and an insertion writes to all of them. They
tell of the same types as long as no address is taken twice, also when several types share a name or
are equal.
-/

namespace GoInspect

section Lists

variable {α : Type} {l : List α} {x : α}

/-- The first element that passes a test is behind those that fail it. -/
theorem find?_eq_some_iff_take {p : α → Bool} :
    l.find? p = some x ↔ p x = true ∧ ∃ i : Nat, l[i]? = some x ∧ ∀ y ∈ l.take i, p y = false := by
  rw [List.find?_eq_some_iff_append]
  simp only [Bool.not_eq_true']
  refine and_congr_right fun _ => ⟨?_, ?_⟩
  · rintro ⟨before, behind, rfl, fail⟩
    exact ⟨before.length, by simp, by rwa [List.take_left]⟩
  · rintro ⟨i, there, fail⟩
    obtain ⟨inside, rfl⟩ := List.getElem?_eq_some_iff.mp there
    exact ⟨l.take i, l.drop (i + 1), by rw [List.getElem_cons_drop, List.take_append_drop], fail⟩

theorem getElem?_append_singleton_eq_some_iff {y : α} {i : Nat} :
    (l ++ [x])[i]? = some y ↔ l[i]? = some y ∨ i = l.length ∧ x = y := by
  grind

end Lists

namespace TypeGraph

/-- The graph of types that were inserted one after another, each at an address. -/
def ofList (types : List (UInt64 × GoType)) : TypeGraph :=
  types.foldl (fun g (address, t) => g.insert address t) empty

variable {g : TypeGraph} {types : List (UInt64 × GoType)} {address : UInt64} {t : GoType}

theorem ofList_append_singleton (types : List (UInt64 × GoType)) (address : UInt64) (t : GoType) :
    ofList (types ++ [(address, t)]) = (ofList types).insert address t :=
  List.foldl_concat ..

/-- The maps of a graph hold the types of a list, which are numbered by their places in it. -/
structure Holds (g : TypeGraph) (types : List (UInt64 × GoType)) : Prop where
  node : ∀ (address : UInt64) (node : TypeNode), g.node? address = some node ↔
    types[node.number]? = some (address, node.type)
  name : ∀ name : Text, g.names[name]? = (types.find? fun x => x.2.name = name).map Prod.fst
  place : ∀ number : Nat, g.places[number]? = types[number]?.map Prod.fst
  count : g.places.size = types.length

/-- What a graph answers is true of the types of a list, in the order in which they were
inserted. -/
structure Indexes (g : TypeGraph) (types : List (UInt64 × GoType)) : Prop where
  /-- At an address is the very type that was inserted there. -/
  node : ∀ (address : UInt64) (node : TypeNode), g.node? address = some node ↔
    types[node.number]? = some (address, node.type)
  /-- A type is found by its address. -/
  find : ∀ address t, g.find? address = some t ↔ (address, t) ∈ types
  /-- A name stands for the first type of that name. -/
  named : ∀ (name : Text) (node : TypeNode), (g.addressOfName? name).bind g.node? = some node ↔
    node.type.name = name ∧ (∃ address, types[node.number]? = some (address, node.type)) ∧
      ∀ x ∈ types.take node.number, x.2.name ≠ name
  /-- A name that no type has stands for nothing. -/
  unnamed : ∀ name, g.addressOfName? name = none ↔ ∀ x ∈ types, x.2.name ≠ name
  /-- A type that is found at an address leads back to it. -/
  address : ∀ address node, g.node? address = some node → g.addressOf? node = some address
  /-- The graph contains the addresses at which types were inserted. -/
  contains : ∀ address, g.contains address = true ↔ address ∈ types.map Prod.fst
  /-- Each type counts. -/
  size : g.size = types.length
  /-- A graph without types is empty. -/
  isEmpty : g.isEmpty = true ↔ types = []
  /-- The types are listed by increasing addresses. -/
  increasing : g.toList.Pairwise fun x y => x.1 < y.1
  /-- Each type is listed once. -/
  listed : g.toList.Perm types

theorem holds_empty : Holds empty [] where
  node address node := by simp
  name name := Std.TreeMap.getElem?_emptyc
  place number := Std.TreeMap.getElem?_emptyc
  count := Std.TreeMap.size_emptyc

/-- A name that is there already keeps its address. -/
theorem getElem?_names_insert (g : TypeGraph) (address : UInt64) (t : GoType) (name : Text) :
    (g.insert address t).names[name]? =
      g.names[name]?.or (if t.name = name then some address else none) := by
  rw [insert, Std.TreeMap.getElem?_insertIfNew]
  by_cases same : t.name = name
  · subst same
    simp only [Std.ReflCmp.compare_self, true_and, if_true, Std.TreeMap.mem_iff_isSome_getElem?]
    cases g.names[t.name]? <;> rfl
  · simp only [Std.LawfulEqCmp.compare_eq_iff_eq, same, false_and, if_false, Option.or_none]

namespace Holds

/-- The number of the next type is free. -/
theorem contains_places_size (h : Holds g types) : g.places.contains g.places.size = false := by
  rw [Std.TreeMap.contains_eq_isSome_getElem?, h.place, h.count, List.getElem?_length]
  rfl

/-- One more type at a new address. -/
theorem insert (h : Holds g types) (new : address ∉ types.map Prod.fst) (t : GoType) :
    Holds (g.insert address t) (types ++ [(address, t)]) where
  node other node := by
    rw [node?_insert, getElem?_append_singleton_eq_some_iff, h.count]
    split
    · next same =>
      subst same
      have absent : types[node.number]? ≠ some (address, node.type) := fun found =>
        new (List.mem_map_of_mem (List.mem_of_getElem? found))
      rw [or_iff_right absent, Option.some_inj]
      constructor
      · rintro rfl
        exact ⟨rfl, rfl⟩
      · rintro ⟨number, same⟩
        obtain ⟨-, rfl⟩ := Prod.mk.inj same
        rw [← number]
    · next differ =>
      rw [h.node, or_iff_left]
      rintro ⟨-, same⟩
      exact differ (Prod.mk.inj same).1
  name name := by
    rw [getElem?_names_insert, h.name, List.find?_append, Option.map_or, List.find?_singleton]
    by_cases same : t.name = name
    · rw [if_pos same, if_pos (decide_eq_true same)]
      rfl
    · rw [if_neg same, if_neg (mt of_decide_eq_true same)]
      rfl
  place number := by
    simp only [TypeGraph.insert, Std.TreeMap.getElem?_insert, Std.LawfulEqCmp.compare_eq_iff_eq,
      h.place, h.count]
    obtain before | rfl | behind := Nat.lt_trichotomy number types.length
    · rw [if_neg (Nat.ne_of_gt before), List.getElem?_append_left before]
    · rw [if_pos rfl, List.getElem?_concat_length]
      rfl
    · rw [if_neg (Nat.ne_of_lt behind), List.getElem?_eq_none (Nat.le_of_lt behind),
        List.getElem?_eq_none]
      rw [List.length_append]
      exact behind
  count := by
    rw [TypeGraph.insert, Std.TreeMap.size_insert, h.contains_places_size, h.count,
      List.length_append]
    rfl

theorem find?_eq_some_iff (h : Holds g types) :
    g.find? address = some t ↔ (address, t) ∈ types := by
  rw [find?, Option.map_eq_some_iff, List.mem_iff_getElem?]
  constructor
  · rintro ⟨node, found, rfl⟩
    exact ⟨node.number, (h.node address node).mp found⟩
  · rintro ⟨number, there⟩
    exact ⟨⟨number, t⟩, (h.node address _).mpr there, rfl⟩

theorem contains_iff (h : Holds g types) :
    g.contains address = true ↔ address ∈ types.map Prod.fst := by
  rw [contains_iff_exists, List.mem_map]
  constructor
  · rintro ⟨t, found⟩
    exact ⟨(address, t), h.find?_eq_some_iff.mp found, rfl⟩
  · rintro ⟨⟨_, t⟩, mem, rfl⟩
    exact ⟨t, h.find?_eq_some_iff.mpr mem⟩

theorem addressOfName?_eq (h : Holds g types) (name : Text) :
    g.addressOfName? name = (types.find? fun x => x.2.name = name).map Prod.fst := by
  rw [addressOfName?, h.name]
  cases first : types.find? fun x => x.2.name = name with
  | none => rfl
  | some x =>
      have there := h.contains_iff.mpr (List.mem_map_of_mem (List.mem_of_find?_eq_some first))
      rw [Option.map_some, Option.filter_some, if_pos there]

theorem addressOf?_of_node? (h : Holds g types) {node : TypeNode}
    (found : g.node? address = some node) :
    g.addressOf? node = some address := by
  rw [addressOf?, h.place, (h.node address node).mp found]
  rfl

theorem isEmpty_iff (h : Holds g types) : g.isEmpty = true ↔ types = [] := by
  simp only [TypeGraph.isEmpty_iff, ← Bool.not_eq_true, h.contains_iff]
  rw [← List.eq_nil_iff_forall_not_mem, List.map_eq_nil_iff]

section Distinct

variable (distinct : (types.map Prod.fst).Nodup)

include distinct

/-- The address of a type tells where it was inserted. -/
theorem number_unique {i j : Nat} {t u : GoType} (first : types[i]? = some (address, t))
    (second : types[j]? = some (address, u)) : i = j := by
  have inside : i < (types.map Prod.fst).length := by
    rw [List.length_map]
    exact (List.getElem?_eq_some_iff.mp first).1
  refine (List.getElem?_inj inside distinct).mp ?_
  rw [List.getElem?_map, List.getElem?_map, first, second]
  rfl

theorem named_iff (h : Holds g types) {name : Text} {node : TypeNode} :
    (g.addressOfName? name).bind g.node? = some node ↔
      node.type.name = name ∧ (∃ address, types[node.number]? = some (address, node.type)) ∧
        ∀ x ∈ types.take node.number, x.2.name ≠ name := by
  rw [h.addressOfName?_eq, Option.bind_eq_some_iff]
  constructor
  · rintro ⟨_, first, found⟩
    obtain ⟨x, first', rfl⟩ := Option.map_eq_some_iff.mp first
    obtain ⟨named, number, here, earlier⟩ := find?_eq_some_iff_take.mp first'
    have there := (h.node x.1 node).mp found
    obtain rfl := number_unique distinct here there
    have same : x.2 = node.type := congrArg Prod.snd (Option.some.inj (here.symm.trans there))
    refine ⟨same ▸ of_decide_eq_true named, ⟨x.1, there⟩, ?_⟩
    exact fun y mem => of_decide_eq_false (earlier y mem)
  · rintro ⟨named, ⟨address, there⟩, earlier⟩
    refine ⟨address, Option.map_eq_some_iff.mpr ⟨(address, node.type), ?_, rfl⟩,
      (h.node address node).mpr there⟩
    refine find?_eq_some_iff_take.mpr ⟨decide_eq_true named, node.number, there, ?_⟩
    exact fun y mem => decide_eq_false (earlier y mem)

theorem toList_perm (h : Holds g types) : g.toList.Perm types := by
  refine (List.perm_ext_iff_of_nodup g.pairwise_toList.nodup distinct.of_map).mpr ?_
  rintro ⟨address, t⟩
  rw [mem_toList_iff, h.find?_eq_some_iff]

/-- The maps agree on all that is asked of them. -/
theorem indexes (h : Holds g types) : Indexes g types where
  node := h.node
  find _ _ := h.find?_eq_some_iff
  named _ _ := h.named_iff distinct
  unnamed name := by
    rw [h.addressOfName?_eq, Option.map_eq_none_iff, List.find?_eq_none]
    simp only [decide_eq_true_iff]
  address _ _ := h.addressOf?_of_node?
  contains _ := h.contains_iff
  size := by rw [← g.length_toList, (h.toList_perm distinct).length_eq]
  isEmpty := h.isEmpty_iff
  increasing := g.pairwise_toList
  listed := h.toList_perm distinct

end Distinct

/-- Resolving the references of the types changes nothing else. -/
theorem resolved (h : Holds g types) :
    Holds g.resolved (types.map fun (address, t) => (address, t.resolve g.contains)) where
  node address node := by
    rw [node?_resolved, Option.map_eq_some_iff, List.getElem?_map, Option.map_eq_some_iff]
    constructor
    · rintro ⟨before, found, rfl⟩
      exact ⟨_, (h.node address before).mp found, rfl⟩
    · rintro ⟨⟨_, t⟩, there, same⟩
      obtain ⟨rfl, type⟩ := Prod.mk.inj same
      refine ⟨⟨node.number, t⟩, (h.node _ _).mpr there, ?_⟩
      rw [type]
  name name := by
    rw [TypeGraph.resolved, h.name, List.find?_map, Option.map_map]
    rfl
  place number := by
    rw [TypeGraph.resolved, h.place, List.getElem?_map, Option.map_map]
    rfl
  count := by
    rw [TypeGraph.resolved, h.count, List.length_map]

end Holds

/-- Types that are inserted at addresses of their own are all held. -/
theorem holds_ofList (distinct : (types.map Prod.fst).Nodup) : Holds (ofList types) types := by
  induction types using List.reverseRecOn with
  | nil => exact holds_empty
  | append_singleton before x ih =>
      rw [List.map_append, List.map_singleton, List.nodup_append_comm, List.singleton_append,
        List.nodup_cons] at distinct
      rw [ofList_append_singleton]
      exact (ih distinct.2).insert distinct.1 x.2

/-- Types that were inserted at addresses of their own are found by address and by name, lead back
to their addresses and are listed in the order of these. Resolving their references leaves it so. -/
theorem ofList_indexes (distinct : (types.map Prod.fst).Nodup) :
    Indexes (ofList types) types ∧
      Indexes (ofList types).resolved
        (types.map fun (address, t) => (address, t.resolve (ofList types).contains)) := by
  have holds := holds_ofList distinct
  refine ⟨holds.indexes distinct, holds.resolved.indexes ?_⟩
  rw [List.map_map]
  exact distinct

/-- Two types that are equal, the second at the smaller address. -/
def twins : List (UInt64 × GoType) :=
  let t := .mk { size := 8, name := utf8 "main.T" } ⟨20, 20⟩ (.basic .int)
  [(0x2000, t), (0x1000, t)]

/-- The name stands for the first of them, and the second leads back to its own address. -/
theorem ofList_indexes_twins :
    (twins.map Prod.fst).Nodup ∧
      ((ofList twins).addressOfName? (utf8 "main.T")).bind (ofList twins).node? =
        some ⟨0, twins[0].2⟩ ∧
      (ofList twins).node? 0x1000 = some ⟨1, twins[0].2⟩ ∧
      (ofList twins).addressOf? ⟨1, twins[0].2⟩ = some 0x1000 ∧
      (ofList twins).size = 2 := by
  have distinct : (twins.map Prod.fst).Nodup := by decide
  have indexes := (ofList_indexes distinct).1
  have second := (indexes.node 0x1000 ⟨1, twins[0].2⟩).mpr rfl
  refine ⟨distinct, (indexes.named _ _).mpr ⟨rfl, ⟨0x2000, rfl⟩, ?_⟩, second,
    indexes.address _ _ second, indexes.size⟩
  exact fun x mem => absurd mem List.not_mem_nil

end TypeGraph

end GoInspect
