import GoInspect.Enumeration

/-!
# Processor architectures

The facts about a processor that inspection depends on: how wide its pointers are, how wide a return
address a call pushes, and which registers carry arguments.
-/

namespace GoInspect

/-- The processors whose calling conventions are known. -/
inductive Architecture where
  | x86 | x86_64 | arm | aarch64 | powerPC | powerPC64
  deriving DecidableEq, Repr

namespace Architecture

instance : Enumeration Architecture where
  all := [x86, x86_64, arm, aarch64, powerPC, powerPC64]
  name
    | x86 => utf8 "X86"
    | x86_64 => utf8 "X86_64"
    | arm => utf8 "Arm"
    | aarch64 => utf8 "AArch64"
    | powerPC => utf8 "PowerPC"
    | powerPC64 => utf8 "PowerPC64"

def pointerWidth : Architecture → UInt32
  | x86 | arm | powerPC => 4
  | x86_64 | aarch64 | powerPC64 => 8

/-- Bytes in the return address that a call pushes, zero where calls push none. -/
def savedPcWidth : Architecture → UInt32
  | x86 => 4
  | x86_64 => 8
  | _ => 0

def argumentRegisters : Architecture → List Text
  | x86 => ["eax", "ebx", "ecx", "edi", "esi"].map utf8
  | x86_64 => ["rax", "rbx", "rcx", "rdi", "rsi", "r8", "r9", "r10", "r11"].map utf8
  | arm => ["r0", "r1", "r2", "r3", "r4", "r5", "r6", "r7"].map utf8
  | aarch64 =>
    ["x0", "x1", "x2", "x3", "x4", "x5", "x6", "x7", "x8", "x9", "x10", "x11", "x12", "x13", "x14",
      "x15"].map utf8
  | powerPC | powerPC64 => ["r3", "r4", "r5", "r6", "r7", "r8", "r9", "r10"].map utf8

def ofMachine? : UInt16 → Option Architecture
  | 3 => some x86
  | 62 => some x86_64
  | 40 => some arm
  | 183 => some aarch64
  | 20 => some powerPC
  | 21 => some powerPC64
  | _ => none

end Architecture

end GoInspect
