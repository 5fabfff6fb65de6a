import ForwardSlicing.Document.Field
/-!
# Procedures of a document

An instruction is an object with an `op` and the operands that its operation needs. A procedure has a signature,
a list of instructions and, unless it is the number of parameter types, a parameter count. The jumps of a
procedure have to stay inside its body.
-/

namespace ForwardSlicing.Document

/-- The site that a call states: a text or an integer. -/
def callSite (place : String) : Json → Except Failure (Option CallSite)
  | .null => .ok none
  | .str s => .ok (some (.name s))
  | .int i => .ok (some (.number i))
  | v => .error (.model (.badSite place v))

/-- The method that a call names. -/
def callTarget (place : String) (v : Json) : Except Failure Method :=
  match Method.ofJson v with
  | .ok m => .ok m
  | .error fault => .error (.model (.badTarget place fault))

/-- The label of an assignment; one that says nothing counts as none. -/
def labelText (v : Json) : String := if v.isSilent then "" else v.plain

/-- The instruction of an operation, or nothing if there is no such operation. -/
def instructionOf (place : String) (fields : Fields) (op : String) : Option (Except Failure Instruction) :=
  let required (key : String) : Except Failure Int := do operand place (← field place fields key)
  match op with
  | "assign" => some do
    return .assign (← required "result") (← operands place fields "operands")
      (labelText (fieldOr fields "label" (.str "")))
  | "phi" => some do
    return .phi (← required "result") (← operands place fields "operands")
  | "new" => some do
    return .new (← required "result") (fieldOr fields "type" (.str "java.lang.Object")).plain
  | "getfield" => some do
    return .getField (← required "result") (← operand? place fields "ref")
      (← text place (← field place fields "field"))
  | "putfield" => some do
    return .putField (← operand? place fields "ref") (← text place (← field place fields "field"))
      (← required "value")
  | "invoke" => some do
    let target ← callTarget place (← field place fields "target")
    let site ← callSite place (fieldOr fields "site" .null)
    return .invoke target (← operands place fields "args") (← operand? place fields "result") site
  | "branch" => some do
    return .branch (← operands place fields "operands") (← required "target")
  | "goto" => some do
    return .goto (← required "target")
  | "return" => some do
    return .ret (← operand? place fields "value")
  | _ => none

/-- An instruction of a document. -/
def instruction (place : String) (v : Json) : Except Failure Instruction := do
  let fields ← object place v
  let op ← field place fields "op"
  let found := match op with
    | .str name => instructionOf place fields name
    | _ => none
  match found with
  | some result => result
  | none => .error (.model (.unknownOp place op))

/-- The place of an instruction in a procedure. -/
def instructionPlace (signature : String) (i : Nat) : String := signature ++ "[" ++ i.repr ++ "]"

/-- The method that a signature of a document names. -/
def method (v : Json) : Except Failure Method :=
  match Method.ofJson v with
  | .ok m => .ok m
  | .error fault => .error (.model (.badSignature fault))

/-- The number of parameters of a procedure. -/
def paramCount (signature : String) (m : Method) (fields : Fields) : Except Failure Nat := do
  let n ← integer (signature ++ ": params") (fieldOr fields "params" (.int m.descriptor.params.length))
  if n < 0 then .error (.model (.negativeParams signature)) else return n.toNat

/-- A procedure whose jumps stay inside. -/
def checkedProcedure (m : Method) (params : Nat) (body : List Instruction) : Except Failure Procedure :=
  match FlowGraph.build body with
  | .ok _ => .ok ⟨m, params, body⟩
  | .error (i, t) => .error (.model (.jumpOutside m i t))

/-- A procedure of a document. -/
def procedure (v : Json) : Except Failure Procedure := do
  let fields ← object "procedure" v
  let given ← field "procedure" fields "signature"
  let m ← method given
  let signature := given.plain
  let params ← paramCount signature m fields
  let items ← list (signature ++ ": instructions") (fieldOr fields "instructions" (.arr []))
  let body ← items.zipIdx.mapM fun (item, i) => instruction (instructionPlace signature i) item
  checkedProcedure m params body

end ForwardSlicing.Document
