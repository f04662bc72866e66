import GoInspect.Bisection
import GoInspect.Version

/-!
# Function tables

The functions of a binary in the order of their addresses, each with the distances of its frame base
from the stack pointer. A table answers which function an address lies in and where the frame of a
stopped function begins.
-/

namespace GoInspect

/-- From a program counter on, the frame base lies this far above the stack pointer. -/
structure StackDelta where
  /-- The first program counter that the distance holds for. -/
  pc : UInt64
  delta : Int
  deriving DecidableEq, Repr

structure FunctionEntry where
  name : Text
  /-- The entry as the binary stores it. -/
  fileEntry : UInt64
  /-- The entry in the running program. -/
  entry : UInt64
  /-- The stack deltas in the order of their program counters. -/
  deltas : Array StackDelta
  deriving DecidableEq, Repr

def FunctionEntry.deltaAt? (f : FunctionEntry) (pc : UInt64) : Option Int :=
  (lastBefore? (fun d => pc < d.pc) f.deltas).map StackDelta.delta

structure FunctionTable where
  /-- The functions in the order of their entries. -/
  functions : Array FunctionEntry
  /-- The end of the text as the binary stores it. -/
  maxPcFile : UInt64
  /-- The end of the text in the running program. -/
  maxPc : UInt64
  /-- The releases that may have built the binary. -/
  version : VersionBound
  pointerWidth : UInt32
  /-- Bytes in the shortest instruction. -/
  minInstructionSize : UInt32
  deriving DecidableEq, Repr

namespace FunctionTable

/-- Functions in the order of their entries; equal entries keep their order. -/
def sorted (functions : List FunctionEntry) : Array FunctionEntry :=
  (functions.mergeSort fun a b => a.entry ≤ b.entry).toArray

variable (t : FunctionTable)

/-- The function that an address lies in, and how far it lies behind the entry. The last function
reaches up to the end of the text. -/
def find? (pc : UInt64) : Option (FunctionEntry × UInt64) :=
  if t.maxPc < pc then none
  else
    (lastBefore? (fun f => pc < f.entry) t.functions).map fun f => (f, pc - f.entry)

def named (name : Text) : List FunctionEntry := t.functions.toList.filter (·.name == name)

def hasNamed (name : Text) : Bool := t.functions.any (·.name == name)

/-- The base of the frame whose program counter and stack pointer are given. -/
def frameBase? (pc sp : UInt64) : Option UInt64 :=
  match t.find? pc with
  | none => none
  | some (f, _) => (f.deltaAt? pc).map fun delta => sp + UInt64.ofInt delta

/-- The version bound cut down by the functions of the runtime that were added, dropped or renamed
within it. From 1.24 on the bucket maps are gone, unless they were switched back on. -/
def narrowedVersion : VersionBound :=
  let has := fun name => t.hasNamed (utf8 name)
  if t.version = ⟨20, 24⟩ then
    if has "runtime.evacuate" then t.version else ⟨24, 24⟩
  else if t.version = ⟨18, 19⟩ then
    if has "runtime.findrunnable" then ⟨18, 18⟩
    else if has "runtime.findRunnable" then ⟨19, 19⟩
    else t.version
  else if t.version = ⟨16, 17⟩ then
    if has "runtime.freespecial" then ⟨16, 16⟩
    else if has "runtime.freeSpecial" then ⟨17, 17⟩
    else t.version
  else if t.version = ⟨2, 15⟩ then
    if has "runtime.modulesinit" then
      if has "runtime.lfstackpush" then ⟨8, 8⟩ else ⟨9, 15⟩
    else if has "runtime.typelinksinit" then ⟨7, 7⟩
    else ⟨2, 6⟩
  else t.version

def narrowed : FunctionTable := { t with version := t.narrowedVersion }

end FunctionTable

end GoInspect
