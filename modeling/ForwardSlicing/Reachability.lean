/-!
# Reachability

`distinct` drops repeated members of a list, keeping the first of each. `explore` collects everything that can be
reached from a start by following `next`: each member is expanded once, so a bound on the number of members is
fuel enough.
-/

namespace ForwardSlicing

variable {α : Type} [BEq α]

/-- The members of a list without repeats, in the order of their first occurrences. -/
def distinct : List α → List α
  | [] => []
  | x :: xs => x :: (distinct xs).filter fun y => !(x == y)

/-- The distinct members of `xs` that `seen` lacks. -/
def fresh (seen xs : List α) : List α :=
  distinct (xs.filter fun x => !seen.contains x)

/-- Adds to `seen` all that is reachable from `pending`, which `seen` already holds. -/
def explore (next : α → List α) : Nat → List α → List α → List α
  | 0, _, seen => seen
  | _, [], seen => seen
  | fuel + 1, x :: pending, seen =>
    let new := fresh seen (next x)
    explore next fuel (new ++ pending) (seen ++ new)

end ForwardSlicing
