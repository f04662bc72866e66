import GoInspect.Configuration

/-!
# Log files

The events of a channel that is logged are kept in a file of the channel's name, a line for each.
Opening the logs empties files that are left from before.
-/

namespace GoInspect

structure LogFile where
  name : Text
  contents : Text
  deriving DecidableEq, Repr

namespace LogFile

def nameOf (c : Channel) : Text := Enumeration.name c ++ utf8 ".log"

def ofEvents (events : List Event) (c : Channel) : LogFile :=
  ⟨nameOf c, (events.filter fun e => e.channel = c).flatMap fun e => e.message ++ [10]⟩

def all (channels : List Channel) (events : List Event) : List LogFile :=
  channels.map (ofEvents events)

/-- The files after log files are written to a directory. One that cannot be written is lost. -/
def writeAll (files : FileTree) (directory : Text) (logs : List LogFile) : FileTree :=
  logs.foldl (fun t l => t.write directory l.name l.contents.toArray) files

/-- The lines of a log file. The last one may lack its end. -/
def lines (contents : Text) : List Text :=
  let pieces := Text.pieces 10 contents
  if pieces.getLast? = some [] then pieces.dropLast else pieces

end LogFile

end GoInspect
