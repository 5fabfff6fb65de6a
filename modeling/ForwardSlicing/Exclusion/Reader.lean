import ForwardSlicing.Exclusion.Pattern
import ForwardSlicing.Number.Integer
/-!
# Reading patterns

A pattern is read token by token, where a token is a code point or a backslash with the code point after it. One
token is always looked at in advance, so a backslash at the very end is reported as soon as the token before it
is taken.
-/

namespace ForwardSlicing.Pattern

/-- Why a text is no pattern. -/
inductive Fault where
  | missingClose
  | unbalanced
  | nothingToRepeat
  | multipleRepeat
  | unterminatedSet
  | badRange (lo hi : String)
  | badEscape (escape : String)
  | escapeAtEnd
  | leastAboveMost
  | countTooLarge
  | countTooLong (digits : Nat)
  | tooDeep
  | endAfterExtension
  | unknownExtension (c : String)
deriving DecidableEq

def Fault.message : Fault → String
  | .missingClose => "missing ), unterminated subpattern"
  | .unbalanced => "unbalanced parenthesis"
  | .nothingToRepeat => "nothing to repeat"
  | .multipleRepeat => "multiple repeat"
  | .unterminatedSet => "unterminated character set"
  | .badRange lo hi => "bad character range " ++ lo ++ "-" ++ hi
  | .badEscape e => "bad escape " ++ e
  | .escapeAtEnd => "bad escape (end of pattern)"
  | .leastAboveMost => "min repeat greater than max repeat"
  | .countTooLarge => "the repetition number is too large"
  | .countTooLong digits => "a repetition number with " ++ digits.repr ++ " digits"
  | .tooDeep => "nested too deeply"
  | .endAfterExtension => "unexpected end of pattern"
  | .unknownExtension c => "unknown extension ?" ++ c

/-- A fault and where in the pattern it is. -/
structure LocatedFault where
  fault : Fault
  position : Nat
deriving DecidableEq

/-- A fault as messages tell it; in a pattern of several lines also by line and column. -/
def LocatedFault.message (pattern : String) (e : LocatedFault) : String :=
  let before := (Text.codePoints pattern).take e.position
  let line := before.count '\n'.toNat + 1
  let column := (before.reverse.takeWhile (· != '\n'.toNat)).length + 1
  e.fault.message ++ " at position " ++ e.position.repr ++
    if (Text.codePoints pattern).contains '\n'.toNat then " (line " ++ line.repr ++ ", column " ++ column.repr ++ ")" else ""

/-- A piece of a pattern text. `dangling` is a backslash with nothing after it. -/
inductive Token where
  | plain (n : Nat)
  | escaped (n : Nat)
  | dangling
deriving DecidableEq

namespace Token

/-- The token of a character that stands for itself. -/
abbrev sign (c : Char) : Token := .plain c.toNat

def text : Token → String
  | .plain n => Text.ofCodePoints [n]
  | .escaped n => "\\" ++ Text.ofCodePoints [n]
  | .dangling => "\\"

/-- The number of code points of a token. -/
def size : Token → Nat
  | .escaped _ => 2
  | _ => 1

end Token

/-- The tokens of the code points of a pattern. -/
def tokens : List Nat → List Token
  | [] => []
  | [n] => if n = '\\'.toNat then [.dangling] else [.plain n]
  | n :: m :: ns => if n = '\\'.toNat then .escaped m :: tokens ns else .plain n :: tokens (m :: ns)

/-- What is left of a pattern, and where it starts. -/
structure Source where
  position : Nat
  rest : List Token

namespace Source

def fail {α : Type} (fault : Fault) (position : Nat) : Except LocatedFault α := .error ⟨fault, position⟩

/-- Looks ahead: a dangling backslash is refused as soon as it comes next. -/
def check (s : Source) : Except LocatedFault Source :=
  match s.rest with
  | .dangling :: _ => fail .escapeAtEnd s.position
  | _ => .ok s

/-- Takes the next token. -/
def take (s : Source) : Except LocatedFault (Option Token × Source) :=
  match s.rest with
  | [] => .ok (none, s)
  | t :: rest => do
    let next ← check ⟨s.position + t.size, rest⟩
    return (some t, next)

/-- Takes the next token if it is the given character. -/
def accept (s : Source) (c : Char) : Except LocatedFault (Bool × Source) :=
  if s.rest.head? = some (.sign c) then do
    let (_, next) ← s.take
    return (true, next)
  else .ok (false, s)

end Source

/-! ## Character sets -/

/-- The class of code points that an escape names. -/
def classEscape? (n : Nat) : Option SetMember :=
  match Char.ofNat n with
  | 'd' => some (.named .digit false)
  | 'D' => some (.named .digit true)
  | 's' => some (.named .space false)
  | 'S' => some (.named .space true)
  | 'w' => some (.named .word false)
  | 'W' => some (.named .word true)
  | _ => none

/-- The code point that an escape stands for; a letter without a meaning may not be escaped. -/
def charEscape? (n : Nat) : Option Nat :=
  match Char.ofNat n with
  | 'a' => some 7
  | 'f' => some 12
  | 'n' => some '\n'.toNat
  | 'r' => some '\r'.toNat
  | 't' => some '\t'.toNat
  | 'v' => some 11
  | c => if c.isAlphanum then none else some n

/-- The member that a token adds to a set, where `position` is that of the token. -/
def setMember (t : Token) (position : Nat) : Except LocatedFault SetMember :=
  match t with
  | .plain n => .ok (.range n n)
  | .escaped n =>
    match classEscape? n with
    | some m => .ok m
    | none =>
      if n = 'b'.toNat then .ok (.range 8 8)
      else match charEscape? n with
        | some d => .ok (.range d d)
        | none => Source.fail (.badEscape t.text) position
  | .dangling => Source.fail .escapeAtEnd position

/-- The set member from one token to another. -/
def setRange (lo hi : Token) (m n : SetMember) (position : Nat) : Except LocatedFault SetMember :=
  match m, n with
  | .range a _, .range b _ =>
    if b < a then Source.fail (.badRange lo.text hi.text) position else .ok (.range a b)
  | _, _ => Source.fail (.badRange lo.text hi.text) position

/-- The members of a set up to its closing bracket; a bracket right at the start is a member. -/
def readSet (start : Nat) : Nat → List SetMember → Source → Except LocatedFault (List SetMember × Source)
  | 0, _, _ => Source.fail .unterminatedSet start
  | fuel + 1, acc, s => do
    let (this, s') ← s.take
    match this with
    | none => Source.fail .unterminatedSet start
    | some this =>
      if this = .sign ']' && !acc.isEmpty then return (acc.reverse, s')
      let m ← setMember this s.position
      let (isRange, s'') ← s'.accept '-'
      if isRange then
        let (that, s3) ← s''.take
        match that with
        | none => Source.fail .unterminatedSet start
        | some that =>
          if that = .sign ']' then return ((.range '-'.toNat '-'.toNat :: m :: acc).reverse, s3)
          let n ← setMember that s''.position
          readSet start fuel ((← setRange this that m n s.position) :: acc) s3
      else readSet start fuel (m :: acc) s''

/-! ## Repetitions -/

def digitsOf (ts : List Token) : List Char :=
  ts.filterMap fun
    | .plain n => some (Char.ofNat n)
    | _ => none

/-- The leading decimal digits of what is left. -/
def leadingDigits (ts : List Token) : List Token :=
  ts.takeWhile fun
    | .plain n => (Char.ofNat n).isDigit
    | _ => false

def numberOf (cs : List Char) : Nat := cs.foldl (fun n c => 10 * n + (c.toNat - 0x30)) 0

/-- Takes `n` plain tokens. -/
def skip (s : Source) : Nat → Except LocatedFault Source
  | 0 => .ok s
  | n + 1 => do
    let (_, s) ← s.take
    skip s n

/-- A repetition number has to be below this one. -/
def countLimit : Nat := 4294967295

/-- The number that digits write, if there are any. -/
def countOf (cs : List Char) (position : Nat) : Except LocatedFault (Option Nat) :=
  if cs.isEmpty then .ok none
  else if Numeral.maxDigits < cs.length then Source.fail (.countTooLong cs.length) position
  else if countLimit ≤ numberOf cs then Source.fail .countTooLarge position
  else .ok (some (numberOf cs))

/-- The bounds after an opening brace, or nothing if what follows is no repetition. -/
def readBounds (s : Source) : Except LocatedFault (Option (Nat × Option Nat) × Source) := do
  if s.rest.head? = some (.sign '}') then return (none, s)
  let lo := digitsOf (leadingDigits s.rest)
  let s1 ← skip s lo.length
  let (comma, s2) ← s1.accept ','
  let hi := if comma then digitsOf (leadingDigits s2.rest) else lo
  let s3 ← skip s2 (if comma then hi.length else 0)
  let (closed, s4) ← s3.accept '}'
  if !closed then return (none, s)
  let least := (← countOf lo s.position).getD 0
  let most ← countOf hi s.position
  if most.any (· < least) then Source.fail .leastAboveMost s.position
  return (some (least, most), s4)

/-- Repeats the last item of a sequence, which is given last first. -/
def repeatLast (items : List Pattern) (bounds : Nat × Option Nat) (position : Nat) (s : Source) :
    Except LocatedFault (List Pattern × Source) :=
  match items with
  | [] => Source.fail .nothingToRepeat position
  | .first :: _ => Source.fail .nothingToRepeat position
  | .last :: _ => Source.fail .nothingToRepeat position
  | .times .. :: _ => Source.fail .multipleRepeat position
  | p :: ps => do
    let (isLazy, s) ← s.accept '?'
    if isLazy then return (.times bounds.1 bounds.2 .lazy p :: ps, s)
    let (isPossessive, s) ← s.accept '+'
    return (.times bounds.1 bounds.2 (if isPossessive then .possessive else .greedy) p :: ps, s)

/-! ## Patterns -/

def sequence (items : List Pattern) : Pattern :=
  items.foldl (fun rest p => .seq p rest) .empty

/-- The item that an escape outside of a set stands for. -/
def escapedItem (t : Token) (n : Nat) (position : Nat) : Except LocatedFault Pattern :=
  match classEscape? n with
  | some m => .ok (.set false [m])
  | none => match charEscape? n with
    | some d => .ok (.codePoint d)
    | none => Source.fail (.badEscape t.text) position

/-- How deeply groups may be nested. -/
def maxDepth : Nat := 490

mutual

/-- Alternatives up to a closing parenthesis or the end. Every call that does not end takes a token or goes one
level down, so twice the number of tokens bounds the depth. `depth` counts the groups around. -/
def readAlternatives : Nat → Nat → Source → Except LocatedFault (Pattern × Source)
  | 0, _, s => Source.fail .missingClose s.position
  | fuel + 1, depth, s => do
    let (p, s) ← readSequence fuel depth [] s
    let (more, s) ← s.accept '|'
    if more then
      let (q, s) ← readAlternatives fuel depth s
      return (.alt p q, s)
    else return (p, s)

/-- Items up to a bar, a closing parenthesis or the end; those read so far are given last first. -/
def readSequence : Nat → Nat → List Pattern → Source → Except LocatedFault (Pattern × Source)
  | 0, _, _, s => Source.fail .missingClose s.position
  | fuel + 1, depth, items, s =>
    if s.rest.isEmpty || s.rest.head? = some (.sign '|') || s.rest.head? = some (.sign ')') then
      .ok (sequence items, s)
    else do
      let (t, s') ← s.take
      match t with
      | none => return (sequence items, s)
      | some .dangling => Source.fail .escapeAtEnd s.position
      | some (.escaped n) => readSequence fuel depth ((← escapedItem (.escaped n) n s.position) :: items) s'
      | some (.plain n) =>
        match Char.ofNat n with
        | '[' =>
          let (negated, s1) ← s'.accept '^'
          let (members, s2) ← readSet s.position (s1.rest.length + 1) [] s1
          readSequence fuel depth (.set negated members :: items) s2
        | '*' => repeatAnd fuel depth items (0, none) s.position s'
        | '+' => repeatAnd fuel depth items (1, none) s.position s'
        | '?' => repeatAnd fuel depth items (0, some 1) s.position s'
        | '{' =>
          let (bounds, s1) ← readBounds s'
          match bounds with
          | none => readSequence fuel depth (.codePoint n :: items) s'
          | some b => repeatAnd fuel depth items b s.position s1
        | '.' => readSequence fuel depth (.any :: items) s'
        | '^' => readSequence fuel depth (.first :: items) s'
        | '$' => readSequence fuel depth (.last :: items) s'
        | '(' =>
          let (p, s1) ← readGroup fuel depth s.position s'
          readSequence fuel depth (p :: items) s1
        | _ => readSequence fuel depth (.codePoint n :: items) s'

/-- Repeats the last item and reads on. -/
def repeatAnd : Nat → Nat → List Pattern → Nat × Option Nat → Nat → Source →
    Except LocatedFault (Pattern × Source)
  | 0, _, _, _, _, s => Source.fail .missingClose s.position
  | fuel + 1, depth, items, bounds, position, s => do
    let (items, s) ← repeatLast items bounds position s
    readSequence fuel depth items s

/-- A group from after its opening parenthesis, which stands at `start`. -/
def readGroup : Nat → Nat → Nat → Source → Except LocatedFault (Pattern × Source)
  | 0, _, start, _ => Source.fail .missingClose start
  | fuel + 1, depth, start, s => do
    let (isExtension, s) ← s.accept '?'
    let s ← if isExtension then do
        let (c, s1) ← s.take
        match c with
        | none => Source.fail .endAfterExtension s.position
        | some t =>
          if t = .sign ':' then pure s1 else Source.fail (.unknownExtension t.text) (s.position - 1)
      else pure s
    if maxDepth ≤ depth then Source.fail .tooDeep start
    let (p, s) ← readAlternatives fuel (depth + 1) s
    let (closed, s) ← s.accept ')'
    if closed then return (.group p, s) else Source.fail .missingClose start

end

/-- The pattern that a text writes. -/
def read (text : String) : Except LocatedFault Pattern := do
  let ts := tokens (Text.codePoints text)
  let s ← Source.check ⟨0, ts⟩
  let (p, s) ← readAlternatives (4 * ts.length + 4) 0 s
  if s.rest.isEmpty then return p else Source.fail .unbalanced s.position

end ForwardSlicing.Pattern
