import ForwardSlicing.Json.Value
/-!
# Terms

A term is a tag applied to values. Two terms are the same if their tags are and their values are equal one by one;
lists and objects have no identity of their own and are no arguments of terms.
-/

namespace ForwardSlicing

/-- A tag applied to values. -/
structure Term where
  tag : String
  args : List Json

namespace Term

/-- A value that may be an argument. -/
def isAtomic : Json → Bool
  | .arr _ => false
  | .obj _ => false
  | _ => true

/-- A term, if all its arguments are atomic. -/
def make? (tag : String) (args : List Json) : Option Term :=
  if args.all isAtomic then some ⟨tag, args⟩ else none

def same (a b : Term) : Bool := a.tag == b.tag && Json.sameItems a.args b.args

def text (t : Term) : String := t.tag ++ "(" ++ Json.shownItems t.args ++ ")"

end Term
end ForwardSlicing
