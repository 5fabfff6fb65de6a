import ForwardSlicing.Json.Value
import ForwardSlicing.Method.Signature
/-!
# Dependence levels

A slice follows data dependence and control dependence, each at a level of its own. `none` follows nothing,
`noHeap` stays off the heap and inside procedures, and `full` follows everything.
-/

namespace ForwardSlicing

/-- The two kinds of dependence. -/
inductive DependenceKind where
  | data
  | control
deriving DecidableEq

def DependenceKind.text : DependenceKind → String
  | .data => "data"
  | .control => "control"

/-- The name of the options of a kind in messages. -/
def DependenceKind.optionsName : DependenceKind → String
  | .data => "DataDependenceOptions"
  | .control => "ControlDependenceOptions"

/-- How much of a kind of dependence is followed. -/
inductive Level where
  | none
  | noHeap
  | full
deriving DecidableEq

/-- A level that does not exist. -/
structure UnknownLevel where
  kind : DependenceKind
  given : Json

def UnknownLevel.message (e : UnknownLevel) : String :=
  "unknown " ++ e.kind.optionsName ++ " " ++ e.given.shown ++ " (expected one of NONE, NO_HEAP, FULL)"

namespace Level

/-- The levels, weakest first. -/
def all : List Level := [.none, .noHeap, .full]

def rank : Level → Nat
  | .none => 0
  | .noHeap => 1
  | .full => 2

def name : Level → String
  | .none => "NONE"
  | .noHeap => "NO_HEAP"
  | .full => "FULL"

/-- The level follows all that the other one does. -/
def includes (a b : Level) : Bool := b.rank ≤ a.rank

def enabled (l : Level) : Bool := 0 < l.rank

/-- Dependence through the heap is followed. -/
def heap (l : Level) : Bool := 2 ≤ l.rank

/-- Dependence across calls is followed. -/
def interprocedural (l : Level) : Bool := 2 ≤ l.rank

/-- The spelling of a name that levels are looked up by. Only ASCII letters are turned into capitals: no other
letter has a capital that occurs in the name of a level. -/
def canonicalName (s : String) : String :=
  Method.replaceChar '-' '_' (String.ofList ((Text.stripChars s.toList).map Char.toUpper))

/-- The level that a value names; case, surrounding blanks and hyphens for underscores do not matter. -/
def parse (kind : DependenceKind) (v : Json) : Except UnknownLevel Level :=
  match all.find? fun l => l.name == canonicalName v.plain with
  | some l => .ok l
  | Option.none => .error ⟨kind, v⟩

end Level
end ForwardSlicing
