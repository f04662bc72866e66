import GoInspect.FunctionTable
import GoInspect.Log

/-!
# Walking the stack

From a stopped function the base of its frame follows, and there lies the address it will return to.
Repeating this gives the frames from the innermost outwards, until a frame or a return address is
not known.
-/

namespace GoInspect

structure StackFrame where
  /-- Where the function of the frame stopped. -/
  pc : UInt64
  /-- The base of the frame, zero where it is not known. -/
  base : UInt64
  deriving DecidableEq, Repr

namespace StackWalk

inductive Ending where
  /-- As many frames were found as were asked for. -/
  | limit
  /-- The frame base is not known at a program counter; so many frames were found. -/
  | deltaMissing (pc : UInt64) (frames : Nat)
  /-- Pointers do not reach the return address. -/
  | outOfReach
  /-- The return address cannot be read. -/
  | unreadable (error : ReadError)
  deriving DecidableEq, Repr

def Ending.events : Ending → List Event
  | limit | outOfReach => []
  | deltaMissing pc frames => [.stackDeltaMissing pc frames]
  | unreadable e => [.returnAddressUnreadable e]

variable (t : FunctionTable) (m : Memory) (width : UInt32)

/-- At most `limit` frames from a program counter and a stack pointer on, after `found` others. -/
def walk : (limit : Nat) → (found : Nat) → (pc sp : UInt64) → List StackFrame × Ending
  | 0, _, _, _ => ([], .limit)
  | limit + 1, found, pc, sp =>
    match t.frameBase? pc sp with
    | none => ([⟨pc, 0⟩], .deltaMissing pc (found + 1))
    | some base =>
      -- The return address lies at the base of the frame.
      if fitsAddressSpace base width.toUInt64 t.pointerWidth then
        match m.readUnsigned base width with
        | .error e => ([⟨pc, base⟩], .unreadable e)
        | .ok next =>
          let (rest, ending) := walk limit (found + 1) next (base + width.toUInt64)
          (⟨pc, base⟩ :: rest, ending)
      else ([⟨pc, base⟩], .outOfReach)

/-- The frames from a program counter and a stack pointer on. There are none where calls leave the
return address in a register. -/
def frames (pc sp : UInt64) (limit : Nat) : Logged (List StackFrame) :=
  if width = 0 then ⟨[], [.returnAddressesInRegisters]⟩
  else
    let (found, ending) := walk t m width limit 0 pc sp
    ⟨found, ending.events⟩

end StackWalk

end GoInspect
