import ForwardSlicing.Text.CodePoint
import ForwardSlicing.Text.Lines
/-!
# The log of a run

Entries of the log have a level, and a run shows those from some level on. Debug lines that follow one another have
no order of their own and are shown sorted.
-/

namespace ForwardSlicing.CommandLine

/-- How important an entry is. -/
inductive LogLevel where
  | debug
  | info
  | warning
deriving DecidableEq

namespace LogLevel

def rank : LogLevel → Nat
  | .debug => 0
  | .info => 1
  | .warning => 2

def name : LogLevel → String
  | .debug => "DEBUG"
  | .info => "INFO"
  | .warning => "WARNING"

end LogLevel

/-- A line of the log, or a line that is shown at any level. -/
inductive LogEntry where
  | note (level : LogLevel) (message : String)
  | always (message : String)

namespace LogEntry

def isShown (least : LogLevel) : LogEntry → Bool
  | .note level _ => least.rank ≤ level.rank
  | .always _ => true

def text : LogEntry → String
  | .note level message => level.name ++ ": " ++ message
  | .always message => message

end LogEntry

/-- A line of the debug level. -/
def isDebugLine (line : String) : Bool := line.startsWith "DEBUG: "

/-- Lines, each with its end, where each run of debug lines is sorted; `run` holds the debug lines just before. -/
def sortDebugLines (run : List String) : List String → List String
  | [] => Text.sorted run
  | line :: rest =>
    if isDebugLine line then sortDebugLines (run ++ [line]) rest
    else Text.sorted run ++ line :: sortDebugLines [] rest

/-- The log from a level on. -/
def logText (least : LogLevel) (entries : List LogEntry) : String :=
  let shown := String.join ((entries.filter (LogEntry.isShown least)).map fun e => e.text ++ "\n")
  String.join (sortDebugLines [] (Text.linesWithEnds shown))

end ForwardSlicing.CommandLine
