import GoInspect.Bytes
import GoInspect.Log

/-!
# Files and directories

The files a program sees: what lies at the paths below a root directory, and the directory that
relative paths start from. Nothing here links to another place, so that going up always leads to the
directory a name was found in. A handle keeps an opened file apart from its path.
-/

namespace GoInspect

/-- What a path leads to. -/
inductive FileNode where
  | file (data : Bytes)
  | directory
  /-- A device that keeps nothing and cannot be mapped. -/
  | device
  deriving DecidableEq, Repr

/-- Why a path leads nowhere. -/
inductive PathError where
  /-- A name is in no directory. -/
  | missing
  /-- Something that is no directory is used as one. -/
  | notDirectory
  /-- A name, or the path, is longer than file names may be. -/
  | nameTooLong
  deriving DecidableEq, Repr

def PathError.message : PathError → Text
  | missing => utf8 "No such file or directory"
  | notDirectory => utf8 "Not a directory"
  | nameTooLong => utf8 "File name too long"

/-- The names on the way from the root directory. -/
abbrev Location := List Text

structure FileTree where
  /-- What lies where, the root directory aside. -/
  nodes : List (Location × FileNode)
  /-- The working directory, where relative paths start. -/
  working : Location

namespace FileTree

def separator : UInt8 := Text.ascii '/'

def maxName : Nat := 255

def maxPath : Nat := 4095

variable (t : FileTree)

def node? (l : Location) : Option FileNode :=
  if l.isEmpty then some .directory else t.nodes.lookup l

/-- Where the names of a path lead to, and what lies there. Empty names and single points stay, but
only in a directory. -/
def walk : (names : List Text) → Location → FileNode → Except PathError (Location × FileNode)
  | [], l, node => .ok (l, node)
  | name :: rest, l, .directory =>
    if name.isEmpty ∨ name = utf8 "." then walk rest l .directory
    else if name = utf8 ".." then walk rest l.dropLast .directory
    else if maxName < name.length then .error .nameTooLong
    else
      match t.node? (l ++ [name]) with
      | none => .error .missing
      | some node => walk rest (l ++ [name]) node
  | _, _, _ => .error .notDirectory

/-- The path of the working directory from the root. -/
def workingPath : Text :=
  if t.working.isEmpty then [separator] else t.working.flatMap (separator :: ·)

/-- Where a path leads to, and what lies there. A zero byte ends the path, whatever follows it. -/
def locate (path : Text) : Except PathError (Location × FileNode) :=
  let path := path.untilZero
  if path.isEmpty then .error .missing
  else if maxPath < path.length then .error .nameTooLong
  else
    t.walk (Text.pieces separator path)
      (if path.head? = some separator then [] else t.working) .directory

def find (path : Text) : Except PathError FileNode := (t.locate path).map Prod.snd

def contains (path : Text) : Bool := (t.find path).isOk

def join (directory name : Text) : Text :=
  if directory.getLast? = some separator then directory ++ name
  else directory ++ separator :: name

def insert (l : Location) (node : FileNode) : FileTree :=
  { t with nodes := (l, node) :: t.nodes.filter fun (other, _) => other != l }

/-- The tree with directories on the way to a location. -/
def withParents (l : Location) : FileTree :=
  (List.range l.length).foldl (fun t n =>
    if (t.node? (l.take n)).isSome then t else t.insert (l.take n) .directory) t

/-- The tree with a node at a location, and directories on the way to it. What lies there stays. -/
def add (l : Location) (node : FileNode) : FileTree :=
  let t := t.withParents l
  if (t.node? l).isSome then t else t.insert l node

/-- The tree after the contents of a file are set, which creates the file if there is none. Nothing
happens where something else lies, or where there is no directory for the file. -/
def write (directory name : Text) (data : Bytes) : FileTree :=
  match t.locate directory with
  | .ok (l, .directory) =>
    match t.node? (l ++ [name]) with
    | none | some (.file _) => t.insert (l ++ [name]) (.file data)
    | _ => t
  | _ => t

end FileTree

/-- A file that was opened, or whose opening failed. -/
structure FileHandle where
  /-- The path it was opened by. -/
  path : Text
  /-- What the handle leads to while it is open. -/
  node : Option FileNode
  /-- Bytes in the file when it was opened. -/
  size : UInt64

namespace FileHandle

def closed : FileHandle := ⟨[], none, 0⟩

def directorySize : UInt64 := 4096

def sizeOf : FileNode → UInt64
  | .file data => data.size.toUInt64
  | .directory => directorySize
  | .device => 0

def «open» (t : FileTree) (path : Text) : Logged FileHandle :=
  match t.find path with
  | .ok node => pure ⟨path, some node, sizeOf node⟩
  | .error e => ⟨⟨path, none, 0⟩, [.openFailed path e.message]⟩

variable (h : FileHandle)

def isOpen : Bool := h.node.isSome

/-- The handle after it is closed. Its path and the size stay. -/
def close : FileHandle := { h with node := none }

/-- Bytes that can be mapped at most. -/
def maxMapping : UInt64 := 0x400000000000

/-- The bytes of the file in a mapping of its first `size` bytes, of all of them where no size is
given. Nothing is mapped for no bytes, from anything else than a file or from a closed handle. -/
def map? (size : Option UInt64) : Option Bytes :=
  let size := size.getD h.size
  match h.node with
  | some (.file data) =>
    if size = 0 ∨ maxMapping < size then none else some (data.extract 0 size.toNat)
  | _ => none

end FileHandle

end GoInspect
