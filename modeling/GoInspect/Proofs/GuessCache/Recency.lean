import GoInspect.Proofs.GuessCache
import Mathlib.Algebra.Order.Ring.Int
import Mathlib.Data.List.Nodup
import Mathlib.Data.List.ReduceOption

/-!
# A cache as a list of guesses

Which slot a guess lies in cannot be told from outside. To whoever asks, a cache is a list of
guesses about different addresses, the one added longest ago first: an addition goes to the end, and
the first guess is dropped when there are more than there are slots. The stamps of the slots keep
that order, so this holds for as long as no stamp is given twice, which is for 2^64 additions.
-/

namespace GoInspect

namespace Recency

variable {α : Type} (l : List (UInt64 × α)) (key : UInt64)

def find? : Option α := (List.find? (fun e => e.1 == key) l).map Prod.snd

def remove : List (UInt64 × α) := l.filter fun e => e.1 != key

/-- The list without its first member, if it has more than `capacity`. -/
def trim {β : Type} (capacity : Nat) (l : List β) : List β :=
  if capacity < l.length then l.tail else l

/-- The guesses with another one behind them, instead of one about the same address. -/
def add (capacity : Nat) (value : α) : List (UInt64 × α) :=
  trim capacity (remove l key ++ [(key, value)])

end Recency

namespace GuessCache

inductive Operation (α : Type) where
  | add (key : UInt64) (value : α)
  | remove (key : UInt64)
  | find (key : UInt64)
  | clear

variable {α : Type}

namespace Operation

def isAddition : Operation α → Bool
  | add .. => true
  | _ => false

def apply : Operation α → GuessCache α → GuessCache α
  | add key value, c => c.add key value
  | remove key, c => c.remove key
  | find _, c => c
  | clear, c => c.clear

/-- What an operation makes of a list of at most `capacity` guesses. -/
def applyToList (capacity : Nat) : Operation α → List (UInt64 × α) → List (UInt64 × α)
  | add key value, l => Recency.add l key capacity value
  | remove key, l => Recency.remove l key
  | find _, l => l
  | clear, _ => []

end Operation

/-- The cache after a run of operations on an empty one. -/
def run (capacity : Nat) (ops : List (Operation α)) : GuessCache α :=
  ops.foldl (fun c op => op.apply c) (empty capacity)

/-- The list of guesses after a run of operations on an empty one. -/
def runList (capacity : Nat) (ops : List (Operation α)) : List (UInt64 × α) :=
  ops.foldl (fun l op => op.applyToList capacity l) []

def Slot.entry (s : Slot α) : UInt64 × α := (s.key, s.value)

theorem room_of_hole? {c : GuessCache α} {i : Nat} (h : c.hole? = some i) :
    c.size < c.capacity := by
  rw [hole?] at h
  split at h
  · next room => exact room
  · cases h

/-- Without a hole all slots are taken. -/
theorem size_eq_capacity_of_hole? {c : GuessCache α} (full : c.hole? = none) :
    c.size = c.capacity := by
  refine Nat.le_antisymm c.size_le_capacity (Nat.not_lt.mp fun room => ?_)
  have slots : c.size < c.slots.length := room
  rw [hole?, if_pos slots] at full
  have all : c.slots.countP Option.isSome = c.slots.length := by
    refine List.countP_eq_length.mpr fun x mem => ?_
    have taken := List.findIdx?_eq_none_iff.mp full x mem
    cases x with
    | none => cases taken
    | some s => rfl
  exact Nat.ne_of_lt slots (c.counted.trans all)

section Slots

variable {slots : List (Option (Slot α))} {i : Nat}

/-- All slots but one, whatever that one holds and comes to hold. -/
theorem exists_others {old : Option (Slot α)} (at_i : slots[i]? = some old) :
    ∃ others, slots.reduceOption.Perm (old.toList ++ others) ∧
      ∀ new, (slots.set i new).reduceOption.Perm (others ++ new.toList) := by
  obtain ⟨inside, rfl⟩ := List.getElem?_eq_some_iff.mp at_i
  have one (x : Option (Slot α)) (rest : List (Option (Slot α))) :
      (x :: rest).reduceOption = x.toList ++ rest.reduceOption := by
    cases x <;> rfl
  refine ⟨(slots.take i).reduceOption ++ (slots.drop (i + 1)).reduceOption, ?_, fun new => ?_⟩
  · nth_rewrite 1 [← List.take_append_drop i slots]
    rw [List.drop_eq_getElem_cons inside, List.reduceOption_append, one]
    exact List.perm_append_comm_assoc _ _ _
  · rw [List.set_eq_take_append_cons_drop, if_pos inside, List.reduceOption_append, one,
      List.append_assoc]
    exact List.Perm.append_left _ List.perm_append_comm

theorem size_eq (c : GuessCache α) : c.size = c.slots.reduceOption.length := by
  rw [c.counted, List.countP_eq_length_filter, List.reduceOption_length_eq]

theorem find?_eq (c : GuessCache α) (key : UInt64) :
    c.find? key = (c.slots.reduceOption.find? (·.key == key)).map Slot.value := by
  have same : (fun x : Option (Slot α) => (id x).any (·.key == key)) = holds key := by
    funext x
    cases x <;> rfl
  rw [find?, List.reduceOption, List.find?_filterMap, same]
  cases c.slots.find? (holds key) <;> rfl

end Slots

/-- Among guesses about different addresses it does not matter which comes first. -/
theorem find?_eq_some_iff {ss : List (Slot α)} (distinct : (ss.map Slot.key).Nodup) {key : UInt64}
    {s : Slot α} : ss.find? (·.key == key) = some s ↔ s ∈ ss ∧ s.key = key := by
  constructor
  · intro found
    have about := List.find?_some found
    exact ⟨List.mem_of_find?_eq_some found, beq_iff_eq.mp about⟩
  · rintro ⟨mem, about⟩
    have isSome : (ss.find? (·.key == key)).isSome :=
      List.find?_isSome.mpr ⟨s, mem, beq_iff_eq.mpr about⟩
    obtain ⟨s', found⟩ := Option.isSome_iff_exists.mp isSome
    have about' := List.find?_some found
    rw [found, List.inj_on_of_nodup_map distinct (List.mem_of_find?_eq_some found) mem
      ((beq_iff_eq.mp about').trans about.symm)]

theorem find?_perm {ss ss' : List (Slot α)} (perm : ss.Perm ss')
    (distinct : (ss'.map Slot.key).Nodup) (key : UInt64) :
    ss.find? (·.key == key) = ss'.find? (·.key == key) := by
  ext s
  rw [find?_eq_some_iff ((perm.map Slot.key).nodup_iff.mpr distinct), find?_eq_some_iff distinct,
    perm.mem_iff]

/-- After `n` additions the slots of a cache, in the order of their stamps. -/
structure Ordered (c : GuessCache α) (n : Nat) (ss : List (Slot α)) : Prop where
  slots : c.slots.reduceOption.Perm ss
  stamps : ss.Pairwise (·.stamp < ·.stamp)
  given : ∀ s ∈ ss, s.stamp.toNat < n
  keys : (ss.map Slot.key).Nodup
  next : c.next = UInt64.ofNat n

namespace Ordered

variable {c c' : GuessCache α} {n : Nat} {ss ss' : List (Slot α)}

theorem empty (capacity : Nat) : Ordered (GuessCache.empty capacity : GuessCache α) 0 [] where
  slots := by
    rw [GuessCache.empty, List.reduceOption_replicate_none]
  stamps := .nil
  given := fun _ none => nomatch none
  keys := .nil
  next := rfl

theorem size (h : c.Ordered n ss) : c.size = ss.length := by
  rw [size_eq, h.slots.length_eq]

theorem length_le (h : c.Ordered n ss) : ss.length ≤ c.capacity :=
  h.size ▸ c.size_le_capacity

theorem find? (h : c.Ordered n ss) (key : UInt64) :
    c.find? key = Recency.find? (ss.map Slot.entry) key := by
  have same : ((fun e : UInt64 × α => e.1 == key) ∘ Slot.entry) = (·.key == key) := rfl
  rw [find?_eq, find?_perm h.slots h.keys, Recency.find?, List.find?_map, same, Option.map_map]
  rfl

/-- Some of the slots of a cache. -/
theorem sublist (h : c.Ordered n ss) (part : ss'.Sublist ss)
    (slots : c'.slots.reduceOption.Perm ss') (next : c'.next = c.next) : c'.Ordered n ss' where
  slots := slots
  stamps := h.stamps.sublist part
  given := fun s mem => h.given s (part.subset mem)
  keys := h.keys.sublist (part.map Slot.key)
  next := next.trans h.next

/-- Guesses that are kept, and behind them the one that is added. -/
theorem appended (h : c.Ordered n ss) (few : n < 2 ^ 64) (key : UInt64) (value : α)
    (part : ss'.Sublist (ss.filter (·.key != key) ++ [⟨key, c.next, value⟩]))
    (slots : c'.slots.reduceOption.Perm ss') (next : c'.next = c.next + 1) :
    c'.Ordered (n + 1) ss' := by
  have kept : (ss.filter (·.key != key)).Sublist ss := List.filter_sublist
  have stamp : c.next.toNat = n := by
    rw [h.next, UInt64.toNat_ofNat', Nat.mod_eq_of_lt few]
  constructor
  case slots => exact slots
  case stamps =>
    refine List.Pairwise.sublist part (List.pairwise_append.mpr
      ⟨h.stamps.sublist kept, List.pairwise_singleton _ _, ?_⟩)
    intro s mem new written
    cases List.mem_singleton.mp written
    rw [UInt64.lt_iff_toNat_lt, stamp]
    exact h.given s (kept.subset mem)
  case given =>
    intro s mem
    obtain mem | written := List.mem_append.mp (part.subset mem)
    · exact Nat.lt_succ_of_lt (h.given s (kept.subset mem))
    · cases List.mem_singleton.mp written
      exact stamp ▸ Nat.lt_succ_self _
  case keys =>
    refine List.Nodup.sublist (part.map Slot.key) ?_
    rw [List.map_append, List.map_singleton, List.nodup_append]
    refine ⟨h.keys.sublist (kept.map Slot.key), List.pairwise_singleton _ _, ?_⟩
    intro a mem b written
    obtain ⟨s, inside, rfl⟩ := List.mem_map.mp mem
    cases List.mem_singleton.mp written
    have other := (List.mem_filter.mp inside).2
    exact bne_iff_ne.mp other
  case next =>
    rw [next, h.next, UInt64.ofNat_add]
    rfl

/-- The slots without the one about an address. -/
theorem others_perm (h : c.Ordered n ss) {old : Slot α} {others : List (Slot α)}
    (perm : c.slots.reduceOption.Perm (old :: others)) :
    others.Perm (ss.filter (·.key != old.key)) := by
  have all := h.slots.symm.trans perm
  have keys := (all.map Slot.key).nodup_iff.mp h.keys
  have different : ∀ s ∈ others, (s.key != old.key) = true := by
    intro s mem
    rw [bne_iff_ne]
    intro same
    exact (List.nodup_cons.mp keys).1 (same ▸ List.mem_map_of_mem mem)
  have rest := all.filter (·.key != old.key)
  rw [List.filter_cons_of_neg (by simp), List.filter_eq_self.mpr different] at rest
  exact rest.symm

/-- No slot about an address is left out where there is none. -/
theorem filter_eq_self (h : c.Ordered n ss) {key : UInt64}
    (none : c.slots.findIdx? (holds key) = none) : ss.filter (·.key != key) = ss := by
  refine List.filter_eq_self.mpr fun s mem => bne_iff_ne.mpr fun same => ?_
  have slot : some s ∈ c.slots := List.reduceOption_mem_iff.mp (h.slots.mem_iff.mpr mem)
  have free := List.findIdx?_eq_none_iff.mp none (some s) slot
  rw [holds, beq_eq_false_iff_ne] at free
  exact free same

theorem length_eq (h : c.Ordered n ss) (full : c.hole? = none) : ss.length = c.capacity :=
  h.size.symm.trans (size_eq_capacity_of_hole? full)

/-- The slot written longest ago is the first one in the order of stamps. -/
theorem oldest?_eq (h : c.Ordered n (s :: ss)) :
    ∃ i, oldest? c.slots = some i ∧ c.slots[i]? = some (some s) := by
  have slot : some s ∈ c.slots :=
    List.reduceOption_mem_iff.mp (h.slots.mem_iff.mpr List.mem_cons_self)
  have later : ∀ s' ∈ ss, s.stamp < s'.stamp := (List.pairwise_cons.mp h.stamps).1
  have inside : ∀ s', some s' ∈ c.slots → s' = s ∨ s.stamp < s'.stamp := by
    intro s' mem
    have mem := h.slots.mem_iff.mp (List.reduceOption_mem_iff.mpr mem)
    exact (List.mem_cons.mp mem).imp_right fun mem => later s' mem
  have least : leastStamp? c.slots = some s.stamp := by
    refine List.min?_eq_some_iff.mpr ⟨List.mem_filterMap.mpr ⟨_, slot, rfl⟩, fun stamp mem => ?_⟩
    obtain ⟨x, slot', eq⟩ := List.mem_filterMap.mp mem
    obtain ⟨s', rfl, rfl⟩ := Option.map_eq_some_iff.mp eq
    obtain rfl | lt := inside s' slot'
    · exact UInt64.le_refl _
    · exact UInt64.le_of_lt lt
  have found : (c.slots.findIdx? fun x => x.map Slot.stamp == some s.stamp).isSome := by
    rw [List.findIdx?_isSome, List.any_eq_true]
    exact ⟨some s, slot, beq_self_eq_true _⟩
  obtain ⟨i, eq⟩ := Option.isSome_iff_exists.mp found
  refine ⟨i, by rw [oldest?, least, Option.bind_some, eq], ?_⟩
  obtain ⟨x, at_i, stamped⟩ := exists_of_findIdx? eq
  obtain ⟨s', rfl, same⟩ := Option.map_eq_some_iff.mp (beq_iff_eq.mp stamped)
  obtain rfl | lt := inside s' (List.mem_of_getElem? at_i)
  · exact at_i
  · exact absurd same.symm (UInt64.ne_of_lt lt)

theorem of_oldest? {i : Nat} (h : c.Ordered n ss) (oldest : oldest? c.slots = some i) :
    ∃ s rest, ss = s :: rest ∧ c.slots[i]? = some (some s) := by
  cases ss with
  | nil =>
      obtain ⟨s, at_i⟩ := taken_of_oldest? oldest
      have slot := List.reduceOption_mem_iff.mpr (List.mem_of_getElem? at_i)
      cases h.slots.mem_iff.mp slot
  | cons s rest =>
      obtain ⟨j, found, at_j⟩ := h.oldest?_eq
      cases oldest.symm.trans found
      exact ⟨s, rest, rfl, at_j⟩

section Steps

variable (key : UInt64) (value : α)

/-- The slots that an addition leaves, in the order of their stamps. -/
def added (c : GuessCache α) (ss : List (Slot α)) (key : UInt64) (value : α) : List (Slot α) :=
  Recency.trim c.capacity (ss.filter (·.key != key) ++ [⟨key, c.next, value⟩])

theorem map_added : (added c ss key value).map Slot.entry =
    Recency.add (ss.map Slot.entry) key c.capacity value := by
  have kept : (ss.filter (·.key != key)).map Slot.entry =
      Recency.remove (ss.map Slot.entry) key := by
    rw [Recency.remove, List.filter_map]
    rfl
  have all : (ss.filter (·.key != key) ++ [(⟨key, c.next, value⟩ : Slot α)]).map Slot.entry =
      Recency.remove (ss.map Slot.entry) key ++ [(key, value)] := by
    rw [List.map_append, kept]
    rfl
  rw [added, Recency.add, ← all, Recency.trim, Recency.trim, List.length_map]
  split
  · exact List.map_tail
  · rfl

theorem added_sublist :
    (added c ss key value).Sublist
      (ss.filter (·.key != key) ++ [(⟨key, c.next, value⟩ : Slot α)]) := by
  rw [added, Recency.trim]
  split
  · exact List.tail_sublist _
  · exact List.Sublist.refl _

theorem added_of_lt {kept : List (Slot α)} (eq : ss.filter (·.key != key) = kept)
    (room : kept.length < c.capacity) :
    added c ss key value = kept ++ [(⟨key, c.next, value⟩ : Slot α)] := by
  rw [added, eq, Recency.trim, if_neg]
  rw [List.length_append, List.length_singleton]
  exact Nat.not_lt.mpr room

theorem added_of_full (eq : ss.filter (·.key != key) = ss) (full : ss.length = c.capacity) :
    added c ss key value = (ss ++ [(⟨key, c.next, value⟩ : Slot α)]).tail := by
  rw [added, eq, Recency.trim, if_pos]
  rw [List.length_append, full]
  exact Nat.lt_succ_self _

theorem add (h : c.Ordered n ss) (few : n < 2 ^ 64) :
    (c.add key value).Ordered (n + 1) (added c ss key value) := by
  unfold GuessCache.add
  split
  case h_1 i held =>
    obtain ⟨old, at_i, about⟩ := exists_of_findIdx? held
    cases old with
    | none => cases about
    | some old =>
        cases beq_iff_eq.mp about
        obtain ⟨others, before, after⟩ := exists_others at_i
        have kept : others.Perm (ss.filter (·.key != old.key)) := h.others_perm before
        have room : (ss.filter (·.key != old.key)).length < c.capacity := by
          have count : ss.length = others.length + 1 :=
            h.slots.symm.length_eq.trans before.length_eq
          rw [← kept.length_eq, Nat.lt_iff_add_one_le, ← count]
          exact h.length_le
        refine h.appended few old.key value (added_sublist _ _) ?_ rfl
        rw [added_of_lt old.key value rfl room]
        exact (after _).trans (kept.append_right _)
  case h_2 none =>
    have same := h.filter_eq_self none
    split
    case h_1 i free =>
      obtain ⟨others, before, after⟩ := exists_others (free_of_hole? free)
      have room : ss.length < c.capacity := h.size ▸ room_of_hole? free
      refine h.appended few key value (added_sublist _ _) ?_ rfl
      rw [added_of_lt key value same room]
      exact (after _).trans ((before.symm.trans h.slots).append_right _)
    case h_2 none =>
      have full := h.length_eq none
      have dropped := added_of_full key value same full
      split
      case h_1 i oldest =>
        obtain ⟨s, rest, rfl, at_i⟩ := h.of_oldest? oldest
        obtain ⟨others, before, after⟩ := exists_others at_i
        have kept : others.Perm rest := (before.symm.trans h.slots).cons_inv
        refine h.appended few key value (added_sublist _ _) ?_ rfl
        rw [dropped]
        exact (after _).trans (kept.append_right _)
      case h_2 none =>
        cases ss with
        | nil =>
            refine h.appended few key value (added_sublist _ _) ?_ rfl
            rw [dropped]
            exact h.slots
        | cons s rest =>
            obtain ⟨i, oldest, _⟩ := h.oldest?_eq
            exact nomatch none.symm.trans oldest

theorem remove (h : c.Ordered n ss) :
    (c.remove key).Ordered n (ss.filter (·.key != key)) := by
  unfold GuessCache.remove
  split
  case h_1 i held =>
    obtain ⟨old, at_i, about⟩ := exists_of_findIdx? held
    cases old with
    | none => cases about
    | some old =>
        cases beq_iff_eq.mp about
        obtain ⟨others, before, after⟩ := exists_others at_i
        have left : (c.slots.set i none).reduceOption.Perm others := by
          simpa using after none
        exact h.sublist List.filter_sublist (left.trans (h.others_perm before)) rfl
  case h_2 none =>
    rw [h.filter_eq_self none]
    exact h

theorem clear (h : c.Ordered n ss) : c.clear.Ordered n [] := by
  have none : (c.slots.map fun _ => (none : Option (Slot α))).reduceOption = [] := by
    rw [List.map_const', List.reduceOption_replicate_none]
  exact h.sublist (List.nil_sublist _) (List.Perm.of_eq none) rfl

end Steps

end Ordered

section Runs

variable {c : GuessCache α} {n : Nat} {l : List (UInt64 × α)}

/-- After `n` additions a cache holds the guesses of a list, in the order of their stamps. -/
def Keeps (c : GuessCache α) (n : Nat) (l : List (UInt64 × α)) : Prop :=
  ∃ ss, c.Ordered n ss ∧ ss.map Slot.entry = l

theorem Keeps.apply (h : c.Keeps n l) (op : Operation α) (few : n < 2 ^ 64) :
    (op.apply c).Keeps (n + op.isAddition.toNat) (op.applyToList c.capacity l) := by
  obtain ⟨ss, ordered, rfl⟩ := h
  cases op with
  | add key value => exact ⟨_, ordered.add key value few, Ordered.map_added key value⟩
  | remove key =>
      refine ⟨_, ordered.remove key, ?_⟩
      rw [Operation.applyToList, Recency.remove, List.filter_map]
      rfl
  | find key => exact ⟨ss, ordered, rfl⟩
  | clear => exact ⟨[], ordered.clear, rfl⟩

theorem capacity_apply (op : Operation α) : (op.apply c).capacity = c.capacity := by
  cases op with
  | add key value => exact capacity_add c key value
  | remove key => exact capacity_remove c key
  | find key => rfl
  | clear => exact capacity_clear c

theorem Keeps.foldl {ops : List (Operation α)} (h : c.Keeps n l)
    (few : n + ops.countP Operation.isAddition < 2 ^ 64) :
    (ops.foldl (fun c op => op.apply c) c).Keeps (n + ops.countP Operation.isAddition)
      (ops.foldl (fun l op => op.applyToList c.capacity l) l) := by
  induction ops generalizing c n l with
  | nil => exact h
  | cons op rest ih =>
      have count : n + (op :: rest).countP Operation.isAddition =
          n + op.isAddition.toNat + rest.countP Operation.isAddition := by
        rw [List.countP_cons, Nat.add_assoc, Nat.add_comm (rest.countP _)]
        cases op.isAddition <;> rfl
      rw [count] at few ⊢
      have step := h.apply op (by omega)
      rw [← capacity_apply op] at step ⊢
      exact ih step few

theorem Keeps.find? (h : c.Keeps n l) (key : UInt64) : c.find? key = Recency.find? l key := by
  obtain ⟨ss, ordered, rfl⟩ := h
  exact ordered.find? key

theorem Keeps.size (h : c.Keeps n l) : c.size = l.length := by
  obtain ⟨ss, ordered, rfl⟩ := h
  rw [ordered.size, List.length_map]

/-- After any run of operations a cache answers as the list of guesses does, whatever its capacity,
as long as there are fewer additions than stamps. -/
theorem run_find?_size (capacity : Nat) (ops : List (Operation α))
    (few : ops.countP Operation.isAddition < 2 ^ 64) :
    (∀ key, (run capacity ops).find? key = Recency.find? (runList capacity ops) key) ∧
      (run capacity ops).size = (runList capacity ops).length := by
  have start : (empty capacity : GuessCache α).Keeps 0 [] := ⟨[], .empty capacity, rfl⟩
  have kept : (run capacity ops).Keeps (0 + ops.countP Operation.isAddition)
      (runList (empty capacity : GuessCache α).capacity ops) := start.foldl (by rwa [Nat.zero_add])
  rw [capacity_empty] at kept
  exact ⟨kept.find?, kept.size⟩

/-- Of three guesses about different addresses the second is dropped: the first one was added again
before the third. -/
def readded : List (Operation Nat) :=
  [.add 1 10, .add 2 20, .find 2, .add 1 11, .add 3 30]

theorem run_find?_size_readded : readded.countP Operation.isAddition < 2 ^ 64 ∧
    (∀ key, (run 2 readded).find? key = Recency.find? [(1, 11), (3, 30)] key) ∧
      (run 2 readded).size = 2 := by
  have few : readded.countP Operation.isAddition < 2 ^ 64 := by decide
  obtain ⟨find, size⟩ := run_find?_size 2 readded few
  exact ⟨few, find, size⟩

end Runs

end GuessCache

end GoInspect
