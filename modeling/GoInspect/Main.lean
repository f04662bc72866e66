import GoInspect.Program

/-!
# The command line program

Reads the arguments, the environment and the files that arguments name, and carries out what the run
of the program leaves.
-/

namespace GoInspect

namespace Shell

def bytesOf (t : Text) : ByteArray := ⟨t.toArray⟩

/-- The paths that an argument may name. -/
def pathsIn (arg : String) : List String :=
  arg :: (("=".intercalate ((arg.splitOn "=").drop 1)) :: [])

def addPath (tree : FileTree) (path : String) : IO FileTree := do
  let location := (Text.pieces FileTree.separator (utf8 path)).foldl (fun l name =>
    if name.isEmpty || name == utf8 "." then l
    else if name == utf8 ".." then l.dropLast
    else l ++ [name]) (if path.startsWith "/" then [] else tree.working)
  try
    let full := (← IO.currentDir) / path
    if ← full.isDir then pure (tree.add location .directory)
    else if ← full.pathExists then
      pure (tree.add location (.file (← IO.FS.readBinFile full).data))
    else pure tree
  catch _ => pure tree

/-- Writes a log file. One that cannot be written is lost. -/
def writeLog (directory : Text) (l : LogFile) : IO Unit :=
  match String.fromUTF8? (bytesOf (FileTree.join directory l.name)) with
  | none => pure ()
  | some path => try IO.FS.writeBinFile path (bytesOf l.contents) catch _ => pure ()

/-- A run with its surroundings: what it reads, and what it leaves carried out. -/
def run (args : List String) : IO UInt32 := do
  let working := utf8 (← IO.currentDir).toString
  let names := (Text.pieces FileTree.separator working).filter fun name => !name.isEmpty
  let empty : FileTree := ⟨[], names⟩
  let tree ← (args.flatMap pathsIn).foldlM addPath (empty.withParents (names ++ [[]]))
  let log := (← IO.getEnv "LOG").map fun t => CommandLine.received (utf8 t)
  let outcome := Program.run
    { args := args.map fun t => CommandLine.received (utf8 t)
      environment := fun name => if name == utf8 "LOG" then log else none
      files := tree }
  outcome.logs.forM (writeLog outcome.logDirectory)
  (← IO.getStdout).write (bytesOf outcome.reply.output)
  (← IO.getStderr).write (bytesOf outcome.reply.errors)
  pure outcome.status.toUInt32

end Shell

end GoInspect

def main (args : List String) : IO UInt32 := GoInspect.Shell.run args
