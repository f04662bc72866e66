import GoInspect.StackWalk
import GoInspect.Proofs.Memory
import Mathlib.Data.List.Chain

/-!
# The frames of a walk are a longest chain of returns

A stop of a function leads to the stop of its caller where the base of its frame is known, pointers
reach the return address there, and it can be read. `Returns` says this of two stops and `Ends` says
that no caller is known; every stop has exactly one of both. From any start there is one chain of
returns that stops only where it ends or is as long as was asked for, and the walk gives its frames.
Memory may say anything, so that a chain may come back to where it was or run around the address
space.
-/

namespace GoInspect

namespace StackWalk

/-- What is known of a frame before the walk looks at it. -/
structure Stop where
  /-- Where its function stopped. -/
  pc : UInt64
  sp : UInt64
  deriving DecidableEq, Repr

variable (t : FunctionTable) (m : Memory) (width : UInt32)

def Stop.frame (x : Stop) : StackFrame := ⟨x.pc, (t.frameBase? x.pc x.sp).getD 0⟩

/-- Pointers reach every byte of a return address at a base. No pointer has more than eight
bytes. -/
def Reaches (base : UInt64) : Prop :=
  base.toNat + width.toNat ≤ 2 ^ (8 * min t.pointerWidth.toNat 8)

/-- The return address at a base can be read, and is the given one. -/
def Saves (base address : UInt64) : Prop :=
  ∃ bytes, m.readBytes base width.toUInt64 = .ok bytes ∧ bytes.size = width.toNat ∧
    address.toNat = littleEndian bytes.toList

/-- The function of the first stop will return to the second one. Its return address lies at the
base of its frame, and the stack of its caller begins right behind. -/
def Returns (x y : Stop) : Prop :=
  ∃ base, t.frameBase? x.pc x.sp = some base ∧ Reaches t width base ∧ Saves m width base y.pc ∧
    y.sp = base + width.toUInt64

/-- It is not known where the function of a stop will return to. -/
inductive Ends (x : Stop) : Prop where
  | noBase : t.frameBase? x.pc x.sp = none → Ends x
  | outOfReach {base : UInt64} : t.frameBase? x.pc x.sp = some base → ¬Reaches t width base → Ends x
  | unreadable {base : UInt64} : t.frameBase? x.pc x.sp = some base →
      (∀ address, ¬Saves m width base address) → Ends x

/-- The stops from a first one on, each the caller of the one before. There are at most `limit`, and
fewer only where it is not known how to go on. -/
structure MaximalChain (limit : Nat) (start : Stop) (stops : List Stop) : Prop where
  bound : stops.length ≤ limit
  first : 0 < limit → stops.head? = some start
  linked : stops.IsChain (Returns t m width)
  maximal : stops.length < limit → ∃ last, stops.getLast? = some last ∧ Ends t m width last

variable {t m width} {x y z start next : Stop} {base address : UInt64} {limit : Nat}
  {stops rest : List Stop}

section Stops

theorem Saves.unique {other : UInt64} (h : Saves m width base address)
    (h' : Saves m width base other) : address = other := by
  obtain ⟨bytes, read, _, word⟩ := h
  obtain ⟨bytes', read', _, word'⟩ := h'
  obtain rfl : bytes = bytes' := Except.ok.inj (read.symm.trans read')
  exact UInt64.toNat_inj.mp (word.trans word'.symm)

/-- A function has one caller. -/
theorem Returns.unique (h : Returns t m width x y) (h' : Returns t m width x z) : y = z := by
  obtain ⟨base, known, _, saves, above⟩ := h
  obtain ⟨base', known', _, saves', above'⟩ := h'
  obtain rfl : base = base' := Option.some.inj (known.symm.trans known')
  obtain ⟨pc, sp⟩ := y
  obtain ⟨pc', sp'⟩ := z
  obtain rfl : pc = pc' := saves.unique saves'
  obtain rfl : sp = sp' := above.trans above'.symm
  rfl

theorem Ends.not_returns (ends : Ends t m width x) : ¬Returns t m width x y := by
  rintro ⟨base, known, reaches, saves, _⟩
  cases ends with
  | noBase none => cases none.symm.trans known
  | outOfReach known' far =>
      obtain rfl := Option.some.inj (known'.symm.trans known)
      exact far reaches
  | unreadable known' silent =>
      obtain rfl := Option.some.inj (known'.symm.trans known)
      exact silent _ saves

/-- Either the caller of a stop is known or it is not. -/
theorem ends_or_returns (x : Stop) :
    Ends t m width x ∨ ∃ y, Returns t m width x y := by
  cases known : t.frameBase? x.pc x.sp with
  | none => exact .inl (.noBase known)
  | some base =>
      by_cases reaches : Reaches t width base
      · by_cases saves : ∃ address, Saves m width base address
        · obtain ⟨address, saves⟩ := saves
          exact .inr ⟨⟨address, _⟩, base, known, reaches, saves, rfl⟩
        · exact .inl (.unreadable known (not_exists.mp saves))
      · exact .inl (.outOfReach known reaches)

end Stops

section Steps

variable (some : 0 < width.toNat) (few : width.toNat ≤ 8)
include some

theorem reaches_iff :
    Reaches t width base ↔ fitsAddressSpace base width.toUInt64 t.pointerWidth = true := by
  rw [fitsAddressSpace_iff_min, UInt32.toNat_toUInt64]
  exact (and_iff_right some).symm

include few

theorem saves_iff : Saves m width base address ↔ m.readUnsigned base width = .ok address := by
  rw [Memory.readUnsigned_eq_ok_iff some few]
  refine exists_congr fun bytes => and_congr_right fun _ => and_congr_right fun size => ?_
  rw [← UInt64.toNat_inj, Bytes.toNat_toWord (size ▸ few), eq_comm]

/-- The walk stops at a frame whose caller is not known. -/
theorem walk_of_ends (ends : Ends t m width x) (found : Nat) :
    (walk t m width (limit + 1) found x.pc x.sp).1 = [x.frame t] := by
  rw [walk, Stop.frame]
  cases ends with
  | noBase none =>
      rw [none]
      rfl
  | @outOfReach base known far =>
      rw [reaches_iff some] at far
      rw [known]
      dsimp only
      rw [if_neg far]
      rfl
  | @unreadable base known silent =>
      rw [known]
      dsimp only
      split
      · cases read : m.readUnsigned base width with
        | error e => rfl
        | ok address => exact absurd ((saves_iff some few).mpr read) (silent address)
      · rfl

/-- The walk goes on with the caller of a frame. -/
theorem walk_of_returns (returns : Returns t m width x y) (found : Nat) :
    (walk t m width (limit + 1) found x.pc x.sp).1 =
      x.frame t :: (walk t m width limit (found + 1) y.pc y.sp).1 := by
  obtain ⟨base, known, reaches, saves, above⟩ := returns
  rw [walk, Stop.frame, known, above]
  dsimp only
  rw [if_pos ((reaches_iff some).mp reaches), (saves_iff some few).mp saves]
  rfl

end Steps

section Chains

theorem maximalChain_zero : MaximalChain t m width 0 start stops ↔ stops = [] := by
  constructor
  · intro chain
    exact List.eq_nil_of_length_eq_zero (Nat.le_zero.mp chain.bound)
  · rintro rfl
    exact ⟨Nat.le_refl 0, nofun, List.isChain_nil, nofun⟩

theorem MaximalChain.eq_cons (chain : MaximalChain t m width (limit + 1) start stops) :
    ∃ rest, stops = start :: rest := by
  obtain ⟨rest, eq⟩ := List.head?_eq_some_iff.mp (chain.first (Nat.succ_pos limit))
  exact ⟨rest, eq⟩

/-- Where no caller is known there is nothing but the first stop. -/
theorem maximalChain_of_ends (ends : Ends t m width start) :
    MaximalChain t m width (limit + 1) start stops ↔ stops = [start] := by
  constructor
  · intro chain
    obtain ⟨rest, rfl⟩ := chain.eq_cons
    cases rest with
    | nil => rfl
    | cons next rest =>
        exact absurd (List.isChain_cons_cons.mp chain.linked).1 ends.not_returns
  · rintro rfl
    exact ⟨Nat.le_add_left 1 limit, fun _ => rfl, List.isChain_singleton start,
      fun _ => ⟨start, rfl, ends⟩⟩

/-- Where a caller is known the chain goes on with it, if any more stops are to be found. -/
theorem maximalChain_of_returns (returns : Returns t m width start next) :
    MaximalChain t m width (limit + 1) start stops ↔
      ∃ rest, stops = start :: rest ∧ MaximalChain t m width limit next rest := by
  constructor
  · intro chain
    obtain ⟨rest, rfl⟩ := chain.eq_cons
    refine ⟨rest, rfl, ?_⟩
    cases rest with
    | nil =>
        -- The caller is known, so that only the limit can have stopped the chain here.
        obtain rfl | more := Nat.eq_zero_or_pos limit
        · exact maximalChain_zero.mpr rfl
        · obtain ⟨last, eq, ends⟩ := chain.maximal (Nat.succ_lt_succ more)
          cases eq
          exact absurd returns ends.not_returns
    | cons second rest =>
        obtain ⟨link, linked⟩ := List.isChain_cons_cons.mp chain.linked
        obtain rfl := link.unique returns
        exact ⟨Nat.le_of_succ_le_succ chain.bound, fun _ => rfl, linked,
          fun shorter => chain.maximal (Nat.succ_lt_succ shorter)⟩
  · rintro ⟨rest, rfl, chain⟩
    cases rest with
    | nil =>
        obtain rfl | more := Nat.eq_zero_or_pos limit
        · exact ⟨Nat.le_refl 1, fun _ => rfl, List.isChain_singleton start,
            fun shorter => absurd shorter (Nat.lt_irrefl 1)⟩
        · cases chain.first more
    | cons second rest =>
        obtain rfl : second = next :=
          Option.some.inj (chain.first (Nat.lt_of_lt_of_le (Nat.succ_pos _) chain.bound))
        exact ⟨Nat.succ_le_succ chain.bound, fun _ => rfl,
          List.isChain_cons_cons.mpr ⟨returns, chain.linked⟩,
          fun shorter => chain.maximal (Nat.lt_of_succ_lt_succ shorter)⟩

variable (t m width) in
/-- There is one chain from every start to every length. -/
theorem existsUnique_maximalChain (limit : Nat) (start : Stop) :
    ∃! stops, MaximalChain t m width limit start stops := by
  induction limit generalizing start with
  | zero => exact ⟨[], maximalChain_zero.mpr rfl, fun _ chain => maximalChain_zero.mp chain⟩
  | succ limit ih =>
      obtain ends | ⟨next, returns⟩ := ends_or_returns start
      · exact ⟨[start], (maximalChain_of_ends ends).mpr rfl,
          fun _ chain => (maximalChain_of_ends ends).mp chain⟩
      · obtain ⟨rest, chain, unique⟩ := ih next
        refine ⟨start :: rest, (maximalChain_of_returns returns).mpr ⟨rest, rfl, chain⟩, ?_⟩
        intro stops other
        obtain ⟨rest', rfl, chain'⟩ := (maximalChain_of_returns returns).mp other
        rw [unique rest' chain']

/-- The first stops of a chain are a chain to a smaller length. -/
theorem MaximalChain.take (chain : MaximalChain t m width limit start stops) {k : Nat}
    (fewer : k ≤ limit) : MaximalChain t m width k start (stops.take k) := by
  refine ⟨List.length_take_le k stops, ?_, chain.linked.take k, ?_⟩
  · intro more
    rw [List.head?_take, if_neg (Nat.ne_of_gt more)]
    exact chain.first (Nat.lt_of_lt_of_le more fewer)
  · -- A part that is shorter than it may be is the whole chain.
    intro shorter
    have all : stops.length < k := by
      rw [List.length_take] at shorter
      omega
    rw [List.take_of_length_le all.le]
    exact chain.maximal (Nat.lt_of_lt_of_le all fewer)

/-- The walk finds the frames of the chain. -/
theorem MaximalChain.walk (some : 0 < width.toNat) (few : width.toNat ≤ 8)
    (chain : MaximalChain t m width limit start stops) (found : Nat) :
    (walk t m width limit found start.pc start.sp).1 = stops.map (Stop.frame t) := by
  induction limit generalizing start stops found with
  | zero =>
      obtain rfl := maximalChain_zero.mp chain
      rfl
  | succ limit ih =>
      obtain ends | ⟨next, returns⟩ := ends_or_returns start
      · obtain rfl := (maximalChain_of_ends ends).mp chain
        exact walk_of_ends some few ends found
      · obtain ⟨rest, rfl, later⟩ := (maximalChain_of_returns returns).mp chain
        rw [walk_of_returns some few returns, ih later, List.map_cons]

theorem MaximalChain.frames (some : 0 < width.toNat) (few : width.toNat ≤ 8) {pc sp : UInt64}
    (chain : MaximalChain t m width limit ⟨pc, sp⟩ stops) :
    (frames t m width pc sp limit).value = stops.map (Stop.frame t) := by
  have saved : width ≠ 0 := by
    rintro rfl
    exact absurd some (Nat.lt_irrefl 0)
  rw [StackWalk.frames, if_neg saved]
  exact chain.walk some few 0

end Chains

variable (t m width) in
/-- A walk finds the longest chain of frames within its limit. From every start there is exactly one
chain that goes on as long as the caller is known, and the walk gives its frames; what it gives for
a smaller limit are the first of them. -/
theorem frames_maximal (some : 0 < width.toNat) (few : width.toNat ≤ 8) (pc sp : UInt64)
    (limit : Nat) :
    (∃! stops, MaximalChain t m width limit ⟨pc, sp⟩ stops) ∧
    (∀ stops, MaximalChain t m width limit ⟨pc, sp⟩ stops →
      (frames t m width pc sp limit).value = stops.map (Stop.frame t)) ∧
    ∀ k ≤ limit,
      (frames t m width pc sp k).value = (frames t m width pc sp limit).value.take k := by
  have unique := existsUnique_maximalChain t m width limit ⟨pc, sp⟩
  refine ⟨unique, fun _ chain => chain.frames some few, ?_⟩
  intro k fewer
  obtain ⟨stops, chain, _⟩ := unique
  rw [(chain.take fewer).frames some few, chain.frames some few, List.map_take]

section Sample

/-- Two functions that call with 16 and 24 bytes on their frames. -/
def twoFunctions : FunctionTable where
  functions := #[⟨utf8 "runtime.main", 0x401000, 0x401000, #[⟨0x401000, 0⟩, ⟨0x401004, 16⟩]⟩,
    ⟨utf8 "main.main", 0x401100, 0x401100, #[⟨0x401100, 0⟩, ⟨0x40110a, 24⟩]⟩]
  maxPcFile := 0x401400
  maxPc := 0x401400
  version := ⟨20, 24⟩
  pointerWidth := 8
  minInstructionSize := 1

/-- A stack with the return addresses of two calls, the outer one from no function of the table. -/
def twoReturns : Memory where
  readBytes address length :=
    if address = 0xC000010018 ∧ length = 8 then .ok #[0x08, 0x10, 0x40, 0, 0, 0, 0, 0]
    else if address = 0xC000010030 ∧ length = 8 then .ok #[0, 0, 0x50, 0, 0, 0, 0, 0]
    else .error ⟨.unmapped, address, length⟩
  readCString address limit := .error ⟨.unmapped, address, limit.toUInt64⟩
  toRuntime := id

/-- The walk from the inner function finds three frames, and with a limit of two the first two. -/
theorem frames_maximal_twoReturns :
    (∃! stops, MaximalChain twoFunctions twoReturns 8 16 ⟨0x40110C, 0xC000010000⟩ stops) ∧
    (frames twoFunctions twoReturns 8 0x40110C 0xC000010000 16).value =
      [⟨0x40110C, 0xC000010018⟩, ⟨0x401008, 0xC000010030⟩, ⟨0x500000, 0⟩] ∧
    (frames twoFunctions twoReturns 8 0x40110C 0xC000010000 2).value =
      [⟨0x40110C, 0xC000010018⟩, ⟨0x401008, 0xC000010030⟩] := by
  obtain ⟨unique, _, shorter⟩ :=
    frames_maximal twoFunctions twoReturns 8 (by decide) (by decide) 0x40110C 0xC000010000 16
  have all : (frames twoFunctions twoReturns 8 0x40110C 0xC000010000 16).value =
      [⟨0x40110C, 0xC000010018⟩, ⟨0x401008, 0xC000010030⟩, ⟨0x500000, 0⟩] := by decide +kernel
  exact ⟨unique, all, (shorter 2 (by decide)).trans (congrArg (List.take 2) all)⟩

end Sample

end StackWalk

end GoInspect
