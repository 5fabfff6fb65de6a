import ForwardSlicing.Dependence.Index
/-!
# The dependence graph

A statement depends on another in one of two ways. Data dependence follows a value from where it is defined to
where it is used, through parameters and returned values, and through the heap where a read may see a write.
Control dependence follows a decision to the statements whose execution it decides, and a call to the procedure it
enters.

A query first makes sure that the tables it needs are built and then answers from them.
-/

namespace ForwardSlicing

/-- What dependence is computed from. -/
structure DependenceGraph where
  calls : CallGraph
  pointsTo : PointsTo

namespace DependenceGraph

/-- An answer together with the index after the query. -/
abbrev Answer (α : Type) := Except Failure α × Index

variable (g : DependenceGraph)

/-! ## Statements of instructions -/

/-- The statement of an instruction; return instructions are represented by the exit. -/
def nodeStatement (c : Context) (i : Nat) : Except Failure Statement :=
  match c.body[i]? with
  | none => .error (.misuse .noInstruction)
  | some (.ret _) => .ok (.of c .exit)
  | some _ => .ok (.of c (.normal i))

/-- The statements that use a value, where `p` is the procedure whose table is used. -/
def useStatements (p : Procedure) (c : Context) (v : Int) : Except Failure (List Statement) :=
  (p.usesOf v).mapM fun (i, position) =>
    match position with
    | some k => .ok (.of c (.argument i k))
    | none => nodeStatement c i

/-- The first `count` parameters of each context that a call may reach. -/
def calleeParams (c : Context) (site count : Nat) : Except Failure (List Statement) := do
  let targets ← g.calls.targets c site
  return targets.flatMap fun t => (List.range (min count t.procedure.params)).map fun k => .of t (.param k)

/-- The statements that are executed exactly when a node is, which has to be an instruction: its own one and, for a
call, those of its arguments and of its result. -/
def executedWith (c : Context) : FlowNode → Except Failure (List Statement)
  | .instr i => do
    let s ← nodeStatement c i
    match c.body[i]? with
    | some (.invoke _ args result _) =>
      let returned := if result.isSome then [Statement.of c (.returned i)] else []
      return s :: returned ++ (List.range args.length).map fun k => .of c (.argument i k)
    | _ => return [s]
  | _ => .error (.misuse .wrongKind)

/-! ## Data dependence -/

/-- The reads that may see what a heap location is given. -/
def readersOf (x : Index) (written : HeapLocation) : List Statement :=
  ((x.reads.getD []).filter fun r => g.pointsTo.mayAlias written r.location).map (·.reader)

/-- The returned value of a call that may reach a context, if the call has a result. -/
def returnedTo (k : Invocation) : Except Failure (List Statement) :=
  match k.caller.body[k.site]? with
  | none => .error (.misuse .noInstruction)
  | some (.invoke _ _ result _) => .ok (if result.isSome then [k.returned] else [])
  | some ins => if ins.defs.isEmpty then .error (.misuse .notCall) else .ok [k.returned]

/-- The tables that a data query needs. -/
def indexForData (level : Level) (s : Statement) (x : Index) : Index :=
  match s.point, s.instruction? with
  | .normal _, some (.invoke ..) => x
  | .normal _, some ins =>
    let x := if ins.defs.isEmpty then x else x.withTable s.context.procedure
    if level.heap && (HeapLocation.written? s.context ins).isSome then x.withReads g.calls else x
  | .returned _, some (.invoke _ _ result _) => if result.isSome then x.withTable s.context.procedure else x
  | .returned _, some ins => if ins.defs.isEmpty then x else x.withTable s.context.procedure
  | .param _, _ => x.withTable s.context.procedure
  | _, _ => x

/-- The statements that data-depend on a statement, with repeats, answered from the tables. -/
def dataAnswer (level : Level) (s : Statement) (x : Index) : Except Failure (List Statement) :=
  let c := s.context
  let p := (x.table c.procedure).procedure
  match s.point with
  | .normal i =>
    match c.body[i]? with
    | none => .error (.misuse .noInstruction)
    | some (.invoke ..) => .ok []
    | some ins => do
      let uses ← ins.defs.mapM (useStatements p c)
      let readers := match HeapLocation.written? c ins with
        | some l => if level.heap then g.readersOf x l else []
        | none => []
      return uses.flatten ++ readers
  | .returned i =>
    match c.body[i]? with
    | some (.invoke _ args result _) => do
      let uses ← result.toList.mapM (useStatements p c)
      return uses.flatten ++ (← g.calleeParams c i args.length)
    | some _ => .error (.misuse .notCall)
    | none => .error (.misuse .noInstruction)
  | .argument i k => do
    let targets ← g.calls.targets c i
    return (targets.filter fun t => k < t.procedure.params).map fun t =>
      ⟨t, .param k, { index := s.spelling.argument }⟩
  | .param k => do
    let uses ← (s.paramValue? k).toList.mapM (useStatements p c)
    return uses.flatten
  | .exit => do
    let returns ← (← g.calls.callSitesTo c).mapM returnedTo
    return returns.flatten
  | .entry => .ok []

/-- The statements that data-depend directly on a statement. -/
def dataSuccessors (level : Level) (s : Statement) (x : Index) : Answer (List Statement) :=
  match g.calls.check s.context with
  | .error e => (.error e, x)
  | .ok () =>
    if level.enabled then
      let x := g.indexForData level s x
      ((g.dataAnswer level s x).map distinct, x)
    else (.ok [], x)

/-! ## Control dependence -/

/-- The tables that a control query needs. -/
def indexForControl (s : Statement) (x : Index) : Index :=
  let x := x.withTable s.context.procedure
  match s.point with
  | .entry => x.noteControl s.context.procedure
  | .normal _ => x.noteControl s.context.procedure
  | _ => x

/-- The contexts that an instruction enters: those that a call may reach, at the full level. -/
def enteredFrom (level : Level) (s : Statement) (i : Nat) : Except Failure (List Context) :=
  if level.interprocedural && s.isCall then g.calls.targets s.context i else .ok []

/-- The statements that control-depend on a statement, with repeats, answered from the tables. -/
def controlAnswer (level : Level) (s : Statement) (x : Index) : Except Failure (List Statement) :=
  let c := s.context
  let t := x.table c.procedure
  match s.point with
  | .entry => do
    let params : List Statement := (List.range c.procedure.params).map fun k => .of c (.param k)
    let executed ← (t.dependents .entry).mapM (executedWith c)
    return params ++ executed.flatten
  | .normal i => do
    let entered ← g.enteredFrom level s i
    let executed ← (t.dependents (.instr i)).mapM (executedWith c)
    return entered.map (.of · .entry) ++ executed.flatten
  | _ => .ok []

/-- The statements that control-depend directly on a statement. -/
def controlSuccessors (level : Level) (s : Statement) (x : Index) : Answer (List Statement) :=
  match g.calls.check s.context with
  | .error e => (.error e, x)
  | .ok () =>
    if level.enabled then
      let x := indexForControl s x
      ((g.controlAnswer level s x).map distinct, x)
    else (.ok [], x)

/-! ## Both kinds -/

/-- The data and the control successors of a statement. -/
def bothSuccessors (data control : Level) (s : Statement) (x : Index) :
    Answer (List Statement × List Statement) :=
  match g.dataSuccessors data s x with
  | (.error e, x) => (.error e, x)
  | (.ok ds, x) =>
    match g.controlSuccessors control s x with
    | (.error e, x) => (.error e, x)
    | (.ok cs, x) => (.ok (ds, cs), x)

/-- Every statement that depends directly on a statement. -/
def successors (data control : Level) (s : Statement) (x : Index) : Answer (List Statement) :=
  match g.bothSuccessors data control s x with
  | (.error e, x) => (.error e, x)
  | (.ok (ds, cs), x) => (.ok (distinct (ds ++ cs)), x)

/-- The edges out of a statement, each with its kind. -/
def successorEdges (data control : Level) (s : Statement) (x : Index) :
    Answer (List (Statement × DependenceKind)) :=
  match g.bothSuccessors data control s x with
  | (.error e, x) => (.error e, x)
  | (.ok (ds, cs), x) => (.ok (ds.map (·, .data) ++ cs.map (·, .control)), x)

/-- A dependence graph in one line, with the number of procedures that have a table. -/
def text (x : Index) : String :=
  "DependenceGraph(" ++ g.calls.text ++ ", indexed=" ++ x.tables.size.repr ++ ")"

end DependenceGraph
end ForwardSlicing
