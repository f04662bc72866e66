import GoInspect.Architecture
import GoInspect.FunctionTable
import GoInspect.GuessCache
import GoInspect.Log
import GoInspect.TypeGraph

/-!
# Inference

What the registers of a stopped program suggest about the memory they point to. Under the register
based calling convention the two words of an interface value and of a string lie in neighbouring
registers, and the first register of a method holds its receiver. Suggestions are kept as guesses by
address until they are found wrong.
-/

namespace GoInspect

/-- Addresses below this one are taken for small numbers. -/
def minPointer : UInt64 := 0x1000

/-- A program that stopped. -/
structure Stop where
  /-- The program counter, where it is known. -/
  pc : Option UInt64
  /-- The stack pointer, where it is known. -/
  sp : Option UInt64
  /-- The registers that can be read. -/
  registers : List (Text × UInt64)
  deriving Repr

def Stop.register? (p : Stop) (name : Text) : Option UInt64 := p.registers.lookup name

/-- The guesses made over the stops of a program. -/
structure Guesses where
  /-- The types of objects, as addresses of types, by the addresses of the objects. -/
  types : GuessCache UInt64
  /-- The lengths of strings by their addresses. -/
  strings : GuessCache UInt64
  /-- The entry of the function that the last stop was in. -/
  previous : Option UInt64
  deriving Repr

namespace Guesses

/-- No guesses, with room for 64 types and 128 strings. -/
def empty : Guesses := ⟨.empty 64, .empty 128, none⟩

def clear (g : Guesses) : Guesses := ⟨g.types.clear, g.strings.clear, none⟩

def addType (g : Guesses) (object type : UInt64) : Guesses :=
  { g with types := g.types.add object type }

def addString (g : Guesses) (address length : UInt64) : Guesses :=
  { g with strings := g.strings.add address length }

def removeType (g : Guesses) (object : UInt64) : Guesses :=
  { g with types := g.types.remove object }

def removeString (g : Guesses) (address : UInt64) : Guesses :=
  { g with strings := g.strings.remove address }

end Guesses

namespace Receiver

/-- What begins a pointer receiver in the name of a method. -/
def opening : Text := utf8 ".(*"

/-- The text before the last `).`, which closes a pointer receiver. -/
def beforeLastClosing? : Text → Option Text
  | [] => none
  | b :: rest =>
    match beforeLastClosing? rest with
    | some before => some (b :: before)
    | none => if b = 41 ∧ rest.head? = some 46 then some [] else none

def isLineEnd (b : UInt8) : Bool := b == 10 || b == 13

/-- The pointer receiver that a text begins with. It lies on one line and reaches as far as it
can. -/
def first? (t : Text) : Option Text :=
  if opening.isPrefixOf t then beforeLastClosing? ((t.drop 3).takeWhile (!isLineEnd ·)) else none

/-- The text before the first pointer receiver of a name, and the receiver. -/
def split? : Text → Option (Text × Text)
  | [] => none
  | b :: rest =>
    match first? (b :: rest) with
    | some r => some ([], r)
    | none => (split? rest).map fun (before, r) => (b :: before, r)

/-- The type of the receiver of a method by its name: the package is the last component of the path
before the receiver. -/
def typeName? (name : Text) : Option Text :=
  (split? name).map fun (path, receiver) => Text.lastComponent path ++ utf8 "." ++ receiver

end Receiver

namespace Inference

/-- What guesses are made by. -/
structure Context where
  functions : FunctionTable
  /-- The types, if they are known. -/
  types : Option TypeGraph
  architecture : Architecture

variable (c : Context) (p : Stop)

/-- Guesses that a register points to an object of the type at an address. -/
def guessType (register : Text) (address : UInt64) (t : GoType) (g : Guesses) : Logged Guesses :=
  match p.register? register with
  | none => pure g
  | some object =>
    if minPointer ≤ object then
      ⟨g.addType object address, [.typeGuessed register object t.name]⟩
    else pure g

/-- Guesses by two neighbouring argument registers: a type in the first one says what the second one
points to; else a pointer and a small number make a string. -/
def guessPair (first second : Text) (g : Guesses) : Logged Guesses :=
  match p.register? first with
  | none => pure g
  | some value =>
    match c.types.bind (·.find? value) with
    | some t => guessType p second value t g
    | none =>
      match p.register? second with
      | none => pure g
      | some length =>
        if minPointer ≤ value ∧ length < minPointer then
          ⟨g.addString value length, [.stringGuessed first second length value]⟩
        else pure g

def guessPairs : List Text → Guesses → Logged Guesses
  | first :: second :: rest, g => do
    let g ← guessPair c p first second g
    guessPairs (second :: rest) g
  | _, g => pure g

def guessArguments (g : Guesses) : Logged Guesses :=
  guessPairs c p c.architecture.argumentRegisters g

/-- Guesses the receiver of the method that was stopped in, once for every time that another
function is entered. -/
def guessReceiver (g : Guesses) : Logged Guesses :=
  match p.pc.bind c.functions.find?, c.types with
  | some (f, _), some types =>
    if g.previous = some f.entry then pure g
    else
      let g := { g with previous := some f.entry }
      match Receiver.typeName? f.name with
      | none => pure g
      | some name =>
        match types.addressOfName? name with
        | none => ⟨g, [.receiverUnknown name f.name]⟩
        | some address =>
          match types.find? address, c.architecture.argumentRegisters with
          | some t, first :: _ => guessType p first address t g
          | _, _ => pure g
  | _, _ => pure g

def onStop (g : Guesses) : Logged Guesses :=
  if c.functions.version.registerCalls then do
    let g ← guessArguments c p g
    guessReceiver c p g
  else pure g

end Inference

end GoInspect
