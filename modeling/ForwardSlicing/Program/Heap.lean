import ForwardSlicing.Program.Procedure
import ForwardSlicing.Reachability
/-!
# Heap locations and points-to facts

A field access reads or writes a location: a static field, or a field of the object that a value of some context
refers to. A points-to table lists the abstract objects each value may refer to. Two static locations may be the
same storage if they name the same field; two locations of objects if, besides, some object is common to both.
-/

namespace ForwardSlicing

/-- Storage that a field access may touch. -/
inductive HeapLocation where
  | static (field : String)
  | member (context : Option Context) (base : Int) (field : String)

namespace HeapLocation

def field : HeapLocation → String
  | .static f => f
  | .member _ _ f => f

def isStatic : HeapLocation → Bool
  | .static _ => true
  | .member .. => false

/-- The location of a field access, static if there is no base value. -/
def of (context : Option Context) (base : Option Int) (field : String) : HeapLocation :=
  match base with
  | none => .static field
  | some v => .member context v field

/-- The location that an instruction reads. -/
def read? (c : Context) : Instruction → Option HeapLocation
  | .getField _ base field => some (of (some c) base field)
  | _ => none

/-- The location that an instruction writes. -/
def written? (c : Context) : Instruction → Option HeapLocation
  | .putField base field _ => some (of (some c) base field)
  | _ => none

instance : BEq HeapLocation where
  beq
    | .static f, .static f' => f == f'
    | .member c v f, .member c' v' f' => c == c' && v == v' && f == f'
    | _, _ => false

/-- A location as messages show it. -/
def text : HeapLocation → String
  | .static f => "HeapLocation(static " ++ f ++ ")"
  | .member c v f =>
    "HeapLocation(" ++ (match c with | some c => c.text | none => "None") ++ " v" ++ v.repr ++ "." ++ f ++ ")"

end HeapLocation

/-- The objects that a value of a context may refer to. -/
structure PointsToEntry where
  context : Context
  value : Int
  objects : List String

/-- The facts of an analysis, one entry for each value. -/
structure PointsTo where
  entries : List PointsToEntry := []

namespace PointsTo

/-- Whether an entry is that of a value. -/
def isFor (c : Context) (v : Int) (e : PointsToEntry) : Bool := e.context == c && e.value == v

/-- Adds objects to the entry of a value, which comes last if it is new. -/
def add (t : PointsTo) (c : Context) (v : Int) (objects : List String) : PointsTo :=
  if t.entries.any (isFor c v) then
    ⟨t.entries.map fun e => if isFor c v e then { e with objects := distinct (e.objects ++ objects) } else e⟩
  else ⟨t.entries ++ [⟨c, v, distinct objects⟩]⟩

/-- The objects that a value may refer to; none if there is no entry. -/
def objects (t : PointsTo) (c : Context) (v : Int) : List String :=
  match t.entries.find? (isFor c v) with
  | some e => e.objects
  | none => []

/-- The objects that the base of a location may be. -/
def baseObjects (t : PointsTo) (c : Option Context) (v : Int) : List String :=
  match c with
  | some c => t.objects c v
  | none => []

/-- Two locations may be the same storage. -/
def mayAlias (t : PointsTo) : HeapLocation → HeapLocation → Bool
  | .static f, .static f' => f == f'
  | .member c v f, .member c' v' f' => f == f' && (t.baseObjects c v).any (t.baseObjects c' v').contains
  | _, _ => false

end PointsTo
end ForwardSlicing
