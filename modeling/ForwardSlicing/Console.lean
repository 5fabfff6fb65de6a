import ForwardSlicing.Duration
/-!
# The console

A console writes lines of text and keeps the time of nested scopes. In verbose mode it also writes when a scope
begins and ends. The clock is a function from the number of earlier readings to the time, so a run is determined
by its steps.
-/

namespace ForwardSlicing

/-- A scope that is open, and when it began. -/
structure Scope where
  name : String
  start : Binary64

/-- A scope that has ended, and when it ended. -/
structure Lap extends Scope where
  stop : Binary64

/-- How long a scope was open. -/
def Lap.elapsed (lap : Lap) : Binary64 := lap.stop.sub lap.start

/-- Something that a console wrote. -/
inductive ConsoleLine where
  | began (path : List String)
  | ended (path : List String) (elapsed : Binary64)
  | said (tabs : Int) (text : String)

/-- The names of open scopes, outermost first. -/
def pathText (path : List String) : String := "[ " ++ " | ".intercalate path ++ " ]"

def ConsoleLine.text : ConsoleLine → String
  | .began path => "begin " ++ pathText path ++ "\n"
  | .ended path elapsed => "end   " ++ pathText path ++ " " ++ Duration.text elapsed ++ "\n"
  | .said tabs text => String.ofList (List.replicate tabs.toNat '\t') ++ text ++ "\n"

/-- The scopes that are open, innermost first, the one that ended last, what was written, and how often the clock
was read. -/
structure Console where
  verbose : Bool := false
  scopes : List Scope := []
  last : Option Lap := none
  lines : List ConsoleLine := []
  readings : Nat := 0

/-- A step of a program that uses a console. A `scope` block ends its scope whatever happens in it. The program may
`fail` by itself, and it may `attempt` steps and go on when one of them has failed. -/
inductive ConsoleStep where
  | begin (name : String)
  | finish
  | output (text : String) (tabs : Int)
  | verbose (text : String) (tabs : Int)
  | scope (name : String) (steps : List ConsoleStep)
  | fail
  | attempt (steps : List ConsoleStep)

namespace Console

/-- The names of the open scopes, outermost first. -/
def path (c : Console) : List String := (c.scopes.map (·.name)).reverse

def write (c : Console) (line : ConsoleLine) : Console := { c with lines := c.lines ++ [line] }

def writeIfVerbose (c : Console) (line : ConsoleLine) : Console := if c.verbose then c.write line else c

/-- Opens a scope inside the current one. -/
def begin (now : Binary64) (name : String) (c : Console) : Console :=
  let c := { c with scopes := ⟨name, now⟩ :: c.scopes, readings := c.readings + 1 }
  c.writeIfVerbose (.began c.path)

/-- Ends the current scope and tells whether there was one. The clock is read in any case. -/
def finish (now : Binary64) (c : Console) : Bool × Console :=
  match c.scopes with
  | [] => (false, { c with readings := c.readings + 1 })
  | s :: rest =>
    let lap : Lap := ⟨s, now⟩
    let written := c.writeIfVerbose (.ended c.path lap.elapsed)
    (true, { written with scopes := rest, last := some lap, readings := c.readings + 1 })

variable (clock : Nat → Binary64)

mutual

/-- Performs a step and tells whether it succeeded. -/
def perform : ConsoleStep → Console → Bool × Console
  | .begin name, c => (true, c.begin (clock c.readings) name)
  | .finish, c => c.finish (clock c.readings)
  | .output text tabs, c => (true, c.write (.said tabs text))
  | .verbose text tabs, c => (true, c.writeIfVerbose (.said tabs text))
  | .scope name steps, c =>
    let (done, c) := performAll steps (c.begin (clock c.readings) name)
    let (ended, c) := c.finish (clock c.readings)
    (done && ended, c)
  | .fail, c => (false, c)
  | .attempt steps, c => (true, (performAll steps c).2)

/-- Performs steps up to the first that fails. -/
def performAll : List ConsoleStep → Console → Bool × Console
  | [], c => (true, c)
  | s :: rest, c =>
    match perform s c with
    | (true, c) => performAll rest c
    | (false, c) => (false, c)

end

end Console
end ForwardSlicing
