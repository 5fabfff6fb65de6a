/-!
# Values computed once

A `Memo` holds values that are computed from their keys when they are first asked for, and counts how often that
happened. Values come in the order in which they were computed.
-/

namespace ForwardSlicing

/-- Values by key, and the number of computations. -/
structure Memo (κ ν : Type) where
  entries : List (κ × ν) := []
  computed : Nat := 0

namespace Memo

variable {κ ν : Type} [BEq κ]

/-- The value of a key, if it was computed. -/
def find? (m : Memo κ ν) (k : κ) : Option ν := (m.entries.find? (·.1 == k)).map (·.2)

def contains (m : Memo κ ν) (k : κ) : Bool := (m.find? k).isSome

/-- Makes sure that the value of a key is there. -/
def demand (m : Memo κ ν) (k : κ) (make : κ → ν) : Memo κ ν :=
  if m.contains k then m else ⟨m.entries ++ [(k, make k)], m.computed + 1⟩

/-- Forgets the value of a key. -/
def erase (m : Memo κ ν) (k : κ) : Memo κ ν := { m with entries := m.entries.filter fun e => !(e.1 == k) }

def size (m : Memo κ ν) : Nat := m.entries.length

def keys (m : Memo κ ν) : List κ := m.entries.map (·.1)

def values (m : Memo κ ν) : List ν := m.entries.map (·.2)

end Memo
end ForwardSlicing
