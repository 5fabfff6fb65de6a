import ForwardSlicing.Json.Writer
import ForwardSlicing.Program.Statement
/-!
# Slices as JSON

Each statement becomes an object with its kind, method and context, and with its index, argument and instruction
where it has them.
-/

namespace ForwardSlicing.Report

/-- The field of a position that may be absent. -/
def positionField (key : String) (position : Option Nat) (given : Json) : List (String × Json) :=
  if position.isSome then [(key, given)] else []

/-- The instruction field of a statement; the instruction has to exist. -/
def instructionField (s : Statement) : Except Failure (List (String × Json)) :=
  match s.point.instruction? with
  | none => .ok []
  | some i =>
    match s.context.body[i]? with
    | some ins => .ok [("instruction", .str ins.text)]
    | none => .error (.misuse .noInstruction)

/-- A statement as an object. -/
def statementData (s : Statement) : Except Failure Json := do
  return .obj <|
    [("kind", .str s.kind.text), ("method", .str s.context.method.signature), ("context", .str s.context.name)] ++
    positionField "index" s.point.index? s.indexJson ++ positionField "argument" s.point.argument? s.argumentJson ++
    (← instructionField s)

/-- The statements of a slice, in the order of reports. -/
def sliceData (slice : List Statement) : Except Failure (List Json) :=
  (Statement.sorted slice).mapM statementData

/-- The name of the slice itself, which no extra field may have. -/
def reservedField : String := "slice_"

/-- A slice as a document; `extra` fields come first. -/
def json (extra : List (String × Json)) (slice : List Statement) : Except Failure String := do
  if (Json.lookup extra reservedField).isSome then throw (.misuse .wrongKind)
  let fields := Json.setField extra "size" (.int slice.length)
  return (Json.obj (Json.setField fields "statements" (.arr (← sliceData slice)))).document

end ForwardSlicing.Report
