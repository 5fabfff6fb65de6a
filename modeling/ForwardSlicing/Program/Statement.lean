import ForwardSlicing.Program.CallGraph
/-!
# Statements

A statement is a point of a context: an instruction, or one of the points at the boundary of procedures through
which values pass. A call has one point for each argument it passes and one for the value it returns; a procedure
has its entry, one point for each parameter, and its exit, which stands for all its return instructions.

A position may be given as any number: a truth value counts as one or zero, and a position with a fraction is shown
by its whole part. Statements are identified by their point, by the fractions of their positions and by what
identifies their context.
-/

namespace ForwardSlicing

/-- The kinds of points. -/
inductive StatementKind where
  | normal
  | returned
  | argument
  | param
  | entry
  | exit
deriving DecidableEq

namespace StatementKind

def all : List StatementKind := [.normal, .returned, .argument, .param, .entry, .exit]

def text : StatementKind → String
  | .normal => "NORMAL"
  | .returned => "NORMAL_RET_CALLER"
  | .argument => "PARAM_CALLER"
  | .param => "PARAM_CALLEE"
  | .entry => "METHOD_ENTRY"
  | .exit => "METHOD_EXIT"

/-- The kind with a given name. -/
def ofText? (s : String) : Option StatementKind := all.find? (·.text == s)

end StatementKind

/-- A point of a procedure: an instruction, the value returned by a call, an argument of a call, a parameter, the
entry or the exit. -/
inductive Point where
  | normal (index : Nat)
  | returned (index : Nat)
  | argument (index position : Nat)
  | param (position : Nat)
  | entry
  | exit
deriving DecidableEq

namespace Point

def kind : Point → StatementKind
  | .normal _ => .normal
  | .returned _ => .returned
  | .argument _ _ => .argument
  | .param _ => .param
  | .entry => .entry
  | .exit => .exit

/-- The index of the instruction or parameter, if the point has one. -/
def index? : Point → Option Nat
  | .normal i => some i
  | .returned i => some i
  | .argument i _ => some i
  | .param k => some k
  | _ => none

/-- The position of an argument. -/
def argument? : Point → Option Nat
  | .argument _ k => some k
  | _ => none

/-- The index of the instruction that the point belongs to. -/
def instruction? : Point → Option Nat
  | .normal i => some i
  | .returned i => some i
  | .argument i _ => some i
  | _ => none

end Point

/-- The positions of a statement as they were given, where they were not given as integers. -/
structure Spelling where
  index : Option Json := none
  argument : Option Json := none

namespace Spelling

/-- What is to be remembered of a number that was given as a position. -/
def of : Json → Option Json
  | .int _ => none
  | v => some v

/-- The part of a number after the point, counted in units. -/
def fraction : Option Json → Nat
  | some (.float (.finite _ units)) => units % Binary64.one
  | _ => 0

end Spelling

/-- A point of a context. -/
structure Statement where
  context : Context
  point : Point
  spelling : Spelling := {}

namespace Statement

/-- The statement at a point of a context, with positions that are integers. -/
abbrev of (c : Context) (p : Point) : Statement := { context := c, point := p }

/-- The fractions of the index and of the argument. -/
def fractions (s : Statement) : Nat × Nat :=
  (Spelling.fraction s.spelling.index, Spelling.fraction s.spelling.argument)

/-- What identifies a statement. -/
def key (s : Statement) : (Method × String) × Point × (Nat × Nat) := (s.context.key, s.point, s.fractions)

/-- Statements are equal if their keys are; the points, which differ most often, are compared first. -/
instance : BEq Statement :=
  ⟨fun a b => a.point == b.point && a.fractions == b.fractions && a.context.key == b.context.key⟩

def kind (s : Statement) : StatementKind := s.point.kind

/-- The instruction that a statement belongs to; none at the boundary of a procedure. -/
def instruction? (s : Statement) : Option Instruction :=
  s.point.instruction?.bind fun i => s.context.body[i]?

/-- The statement is a call instruction. -/
def isCall (s : Statement) : Bool :=
  match s.point, s.instruction? with
  | .normal _, some (.invoke ..) => true
  | _, _ => false

end Statement

namespace Invocation

/-- The statement of a call. -/
def normal (k : Invocation) : Statement := ⟨k.caller, .normal k.site, { index := Spelling.of k.siteJson }⟩

/-- The value that a call returns. -/
def returned (k : Invocation) : Statement := ⟨k.caller, .returned k.site, { index := Spelling.of k.siteJson }⟩

end Invocation

namespace Statement

/-! ## Statements that exist -/

/-- The instruction of a context at an index that was given. Only an integer or a truth value can be an index. -/
def instructionAt (c : Context) (index : Json) : Except Failure (Nat × Instruction) :=
  let found := index.whole?.bind fun i => if i < 0 then none else (c.body[i.toNat]?).map (i.toNat, ·)
  match found with
  | some r => .ok r
  | none => .error (.outOfRange c (.noInstruction index))

/-- The call of a context at an index that was given: its index and the number of its arguments. -/
def callAt (c : Context) (index : Json) : Except Failure (Nat × Nat) := do
  match ← instructionAt c index with
  | (i, .invoke _ args _ _) => .ok (i, args.length)
  | _ => .error (.outOfRange c (.notCall index))

/-- The position that a number gives among `count` of them, if there is one. -/
def positionAmong (count : Nat) : Json → Except Failure (Option Nat)
  | .int i => .ok (if 0 ≤ i && i < count then some i.toNat else none)
  | .bool b => .ok (if b.toNat < count then some b.toNat else none)
  | .float (.finite negative units) =>
    .ok (if (units = 0 || !negative) && units < count * Binary64.one then some (units / Binary64.one) else none)
  | .float _ => .ok none
  | _ => .error (.misuse .wrongKind)

/-- An instruction of a context. -/
def normalAt (c : Context) (index : Json) : Except Failure Statement := do
  let (i, _) ← instructionAt c index
  return ⟨c, .normal i, { index := Spelling.of index }⟩

/-- The value returned by a call of a context. -/
def returnedAt (c : Context) (index : Json) : Except Failure Statement := do
  let (i, _) ← callAt c index
  return ⟨c, .returned i, { index := Spelling.of index }⟩

/-- An argument of a call of a context. -/
def argumentAt (c : Context) (index position : Json) : Except Failure Statement := do
  let (i, count) ← callAt c index
  match ← positionAmong count position with
  | some k => return ⟨c, .argument i k, ⟨Spelling.of index, Spelling.of position⟩⟩
  | none => .error (.outOfRange c (.noArgument index position))

/-- A parameter of a context. -/
def paramAt (c : Context) (position : Json) : Except Failure Statement := do
  match ← positionAmong c.procedure.params position with
  | some k => return ⟨c, .param k, { index := Spelling.of position }⟩
  | none => .error (.outOfRange c (.noParameter position))

def normal (c : Context) (index : Int) : Except Failure Statement := normalAt c (.int index)

def returned (c : Context) (index : Int) : Except Failure Statement := returnedAt c (.int index)

def argument (c : Context) (index position : Int) : Except Failure Statement :=
  argumentAt c (.int index) (.int position)

def param (c : Context) (position : Int) : Except Failure Statement := paramAt c (.int position)

/-- The statement of a kind with the given positions, of which a kind uses those it needs. -/
def ofPositions (kind : StatementKind) (c : Context) (index position : Json) : Except Failure Statement :=
  match kind with
  | .normal => normalAt c index
  | .returned => returnedAt c index
  | .argument => argumentAt c index position
  | .param => paramAt c index
  | .entry => .ok (.of c .entry)
  | .exit => .ok (.of c .exit)

/-- The value that a parameter arrives in, which is the position after its own; none if that is no integer. -/
def paramValue? (s : Statement) (position : Nat) : Option Int :=
  match s.spelling.index with
  | some (.float x) => (x.sub (.ofInt (-1))).integer?
  | _ => some (position + 1)

/-! ## Text and order -/

/-- The instruction of a statement as reports show it. -/
def instructionText (s : Statement) : String :=
  match s.instruction? with
  | some ins => ins.text
  | none => ""

/-- A statement with its context. -/
def text (s : Statement) : String :=
  let kind := s.kind.text
  let place := s.context.place
  match s.point with
  | .normal i => kind ++ " " ++ place ++ "[" ++ i.repr ++ "] " ++ s.instructionText
  | .returned i => kind ++ " " ++ place ++ "[" ++ i.repr ++ "] " ++ s.instructionText
  | .argument i k => kind ++ " " ++ place ++ "[" ++ i.repr ++ "] arg " ++ k.repr
  | .param k => kind ++ " " ++ place ++ " param " ++ k.repr
  | _ => kind ++ " " ++ place

/-- A statement within its context. -/
def label (s : Statement) : String :=
  let kind := s.kind.text
  match s.point with
  | .normal i => kind ++ " [" ++ i.repr ++ "] " ++ s.instructionText
  | .returned i => kind ++ " [" ++ i.repr ++ "] " ++ s.instructionText
  | .argument i k => kind ++ " [" ++ i.repr ++ "] arg " ++ k.repr
  | .param k => kind ++ " param " ++ k.repr
  | _ => kind

/-- The index in the order of statements, where the entry and the exit come before everything else. -/
def sortIndex (s : Statement) : Int :=
  match s.point.index? with
  | some i => i
  | none => -1

/-- The position in the order of statements. -/
def sortArgument (s : Statement) : Int :=
  match s.point.argument? with
  | some k => k
  | none => -1

/-- A position in the order of statements. -/
def comparePosition (a b : Int) (fractionA fractionB : Nat) : Ordering :=
  (Ord.compare a b).then (Ord.compare fractionA fractionB)

/-- The order of statements in reports: by signature, context name, index, kind and argument. -/
def compare (a b : Statement) : Ordering :=
  (Text.compare a.context.method.signature b.context.method.signature).then <|
  (Text.compare a.context.name b.context.name).then <|
  (comparePosition a.sortIndex b.sortIndex a.fractions.1 b.fractions.1).then <|
  (Text.compare a.kind.text b.kind.text).then <|
  comparePosition a.sortArgument b.sortArgument a.fractions.2 b.fractions.2

/-- The index as it was given. -/
def indexJson (s : Statement) : Json := s.spelling.index.getD (.int s.sortIndex)

/-- The position of an argument as it was given. -/
def argumentJson (s : Statement) : Json := s.spelling.argument.getD (.int s.sortArgument)

def le (a b : Statement) : Bool := (compare a b).isLE

/-- Statements in the order of reports. -/
def sorted (xs : List Statement) : List Statement := xs.mergeSort le

end Statement
end ForwardSlicing
