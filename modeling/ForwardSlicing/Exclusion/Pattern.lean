import ForwardSlicing.Reachability
import ForwardSlicing.Text.Blank
import ForwardSlicing.Text.CodePoint
import ForwardSlicing.Text.Digit
import ForwardSlicing.Text.Word
/-!
# Exclusion patterns

Classes are excluded by regular expressions over class paths. A pattern is matched from every position to all the
positions where it may end, the preferred ones first; a class is excluded if the whole path can be matched. A
possessive repetition takes what each step prefers and gives nothing back, so it has one end at most.
-/

namespace ForwardSlicing

/-- A named class of code points. -/
inductive CharClass where
  | digit
  | space
  | word
deriving DecidableEq

/-- A surrogate is in no class, as the character with the code zero is in none. -/
def CharClass.holds (cls : CharClass) (n : Nat) : Bool :=
  match cls with
  | .digit => (Text.digitValue? (Char.ofNat n)).isSome
  | .space => Text.isBlank (Char.ofNat n)
  | .word => Text.isWord (Char.ofNat n)

/-- A member of a set of code points. -/
inductive SetMember where
  | range (lo hi : Nat)
  | named (cls : CharClass) (negated : Bool)
deriving DecidableEq

def SetMember.holds : SetMember → Nat → Bool
  | .range lo hi, n => lo ≤ n && n ≤ hi
  | .named cls negated, n => cls.holds n != negated

/-- What a repetition tries first, and whether it gives anything back. -/
inductive Repetition where
  | greedy
  | lazy
  | possessive
deriving DecidableEq

/-- A regular expression. `first` and `last` hold at the ends of the path. -/
inductive Pattern where
  | empty
  | any
  | set (negated : Bool) (members : List SetMember)
  | first
  | last
  | group (p : Pattern)
  | seq (p q : Pattern)
  | alt (p q : Pattern)
  | times (least : Nat) (most : Option Nat) (how : Repetition) (p : Pattern)

namespace Pattern

def codePoint (n : Nat) : Pattern := .set false [.range n n]

/-! ## Ends of matches -/

/-- For each position of a text, the positions where a match that starts there may end, the preferred ones first. -/
abbrev Ends := Array (List Nat)

/-- The ends of the matches that start at a position. -/
def Ends.at (e : Ends) (i : Nat) : List Nat := e.getD i []

/-- The ends of a match of at most one code point. -/
def Ends.ofText (s : List Nat) (f : Nat → Option Nat → List Nat) : Ends :=
  ((s.map some ++ [none]).zipIdx.map fun (n, i) => f i n).toArray

/-- One match after another. -/
def Ends.andThen (e f : Ends) : Ends := e.map fun js => distinct (js.flatMap f.at)

/-- One match or, where it is not preferred, another. -/
def Ends.orElse (e f : Ends) : Ends := Array.zipWith (fun js ks => distinct (js ++ ks)) e f

/-! ## Repetitions

Each function takes the ends `step` of what is repeated. A repetition that may stop stops at a step that takes no
code point, so a text of `size` code points has at most `size` further steps. -/

/-- Ends after a first step from `i`, where `rest` gives those after a step that took something, or no step at all. -/
def oneMore (how : Repetition) (rest : Nat → List Nat) (i : Nat) (js : List Nat) : List Nat :=
  let further := js.flatMap fun j => if j = i then [i] else rest j
  distinct (if how = .lazy then i :: further else further ++ [i])

/-- Any number of steps. The ends from a position are made of those from later positions. -/
def anyNumber (how : Repetition) (step : Ends) : Ends :=
  let later := step.toList.zipIdx.foldr (fun (js, i) later =>
    oneMore how (fun j => later.getD (j - i - 1) []) i js :: later) []
  later.toArray

/-- At most `n` steps. -/
def atMost (how : Repetition) (step : Ends) : Nat → Ends
  | 0 => step.mapIdx fun i _ => [i]
  | n + 1 => step.mapIdx (oneMore how (atMost how step n).at)

/-- Exactly `n` steps before other ends. -/
def exactly (step : Ends) : Nat → Ends → Ends
  | 0, e => e
  | n + 1, e => step.andThen (exactly step n e)

/-- The position after `n` preferred steps. -/
def forced (step : Ends) : Nat → Nat → Option Nat
  | 0, i => some i
  | n + 1, i => (step.at i).head?.bind (forced step n)

/-- The position after as many preferred steps as there are, up to `n`. -/
def furthest (step : Ends) : Nat → Nat → Nat
  | 0, i => i
  | n + 1, i =>
    match (step.at i).head? with
    | some j => if j = i then i else furthest step n j
    | none => i

/-- From `least` to `most` steps. More steps than there are code points need a step that takes none, which can be
repeated or left out at will. -/
def repeated (how : Repetition) (least : Nat) (most : Option Nat) (step : Ends) : Ends :=
  let size := step.size - 1
  let must := min least (size + 1)
  let bound := match most with
    | some m => if m - least < size then some (m - least) else none
    | none => none
  if how = .possessive then
    step.mapIdx fun i _ => ((forced step must i).map (furthest step (bound.getD size))).toList
  else
    exactly step must (match bound with
      | some n => atMost how step n
      | none => anyNumber how step)

/-! ## Matching -/

/-- The ends of the matches of a pattern in a text. -/
def ends (s : List Nat) : Pattern → Ends
  | .empty => .ofText s fun i _ => [i]
  | .any => .ofText s fun i n => if n.any (· != '\n'.toNat) then [i + 1] else []
  | .set negated members => .ofText s fun i n =>
    if n.any fun n => (members.any (·.holds n)) != negated then [i + 1] else []
  | .first => .ofText s fun i _ => if i = 0 then [i] else []
  | .last => .ofText s fun i n => if n.isNone || (n == some '\n'.toNat && i + 1 = s.length) then [i] else []
  | .group p => ends s p
  | .seq p q => (ends s p).andThen (ends s q)
  | .alt p q => (ends s p).orElse (ends s q)
  | .times least most how p => repeated how least most (ends s p)

/-- The pattern matches all of a text. -/
def matchesAll (p : Pattern) (s : String) : Bool :=
  ((p.ends (Text.codePoints s)).at 0).contains (Text.codePoints s).length

end Pattern
end ForwardSlicing
