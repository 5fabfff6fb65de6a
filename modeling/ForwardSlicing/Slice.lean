import ForwardSlicing.Dependence.Graph
/-!
# Forward slices

The forward slice of some statements, the seeds, is everything that depends on them, directly or through other
statements. A slice may have a budget: one that needs more statements fails, and no part of it is returned.
-/

namespace ForwardSlicing.DependenceGraph

variable (g : DependenceGraph)

/-- A number of statements is more than the budget allows. -/
def overBudget (limit : Option Int) (n : Nat) : Bool := limit.any (· < (n : Int))

/-- The failure of a slice that is over its budget. -/
def overrun (limit : Option Int) : Failure := .truncated (.int (limit.getD 0))

/-- The procedures that a search can meet. -/
def proceduresInReach (seeds : List Statement) (x : Index) : List Procedure :=
  g.calls.nodes.map (·.procedure) ++ g.calls.edges.flatMap (fun e => [e.caller.procedure, e.callee.procedure]) ++
    x.tables.values.map (·.procedure) ++ seeds.map (·.context.procedure)

def largest (xs : List Nat) : Nat := xs.foldl max 0

/-- The number of arguments of an instruction. -/
def argumentCount : Instruction → Nat
  | .invoke _ args _ _ => args.length
  | _ => 0

/-- No search finds more statements than this: each context has an entry, an exit, its parameters, and for each
instruction itself, its result and its arguments; a seed with a fraction can add itself and a parameter of each
context. -/
def statementBound (seeds : List Statement) (x : Index) : Nat :=
  let ps := g.proceduresInReach seeds x
  let params := largest (ps.map (·.params))
  let size := largest (ps.map (·.body.length))
  let args := largest (ps.map fun p => largest (p.body.map argumentCount))
  g.calls.nodes.length * (2 + params + size * (2 + args)) + seeds.length * (1 + g.calls.nodes.length) + 1

/-- Expands the pending statements until nothing new is found. -/
def expand (data control : Level) (limit : Option Int) :
    Nat → List Statement → List Statement → Index → Answer (List Statement)
  | 0, _, seen, x => (.ok seen, x)
  | _, [], seen, x => (.ok seen, x)
  | fuel + 1, s :: pending, seen, x =>
    match g.successors data control s x with
    | (.error e, x) => (.error e, x)
    | (.ok next, x) =>
      let new := fresh seen next
      if !new.isEmpty && overBudget limit (seen.length + new.length) then (.error (overrun limit), x)
      else expand data control limit fuel (new ++ pending) (seen ++ new) x

/-- The first statement whose context is not a node of the call graph. -/
def foreign? (seeds : List Statement) : Option Statement :=
  seeds.find? fun s => !g.calls.contains s.context

/-- The forward slice of seeds. -/
def forwardSlice (data control : Level) (limit : Option Int) (seeds : List Statement) (x : Index) :
    Answer (List Statement) :=
  match g.foreign? seeds with
  | some s => (.error (.unknownContext s.context), x)
  | none =>
    let start := distinct seeds
    if overBudget limit start.length then (.error (overrun limit), x)
    else match g.expand data control limit (g.statementBound seeds x) start start x with
      | (.error e, x) => (.error e, x)
      | (.ok slice, x) => (.ok slice, x.note (.sliced seeds.length slice.length))

/-- The slices of single seeds, one after the other, where `sliceOf` slices from one seed. -/
def slicesOf (sliceOf : Statement → Index → Answer (List Statement)) :
    List Statement → Index → Answer (List (Statement × List Statement))
  | [], x => (.ok [], x)
  | s :: rest, x =>
    match sliceOf s x with
    | (.error e, x) => (.error e, x)
    | (.ok slice, x) =>
      match slicesOf sliceOf rest x with
      | (.error e, x) => (.error e, x)
      | (.ok slices, x) => (.ok ((s, slice) :: slices), x)

/-- One slice for each distinct seed. The number of workers changes no answer. -/
def forwardSlices (data control : Level) (limit : Option Int) (workers : Nat) (seeds : List Statement) (x : Index) :
    Answer (List (Statement × List Statement)) :=
  let seeds := distinct seeds
  match g.foreign? seeds with
  | some s => (.error (.unknownContext s.context), x)
  | none =>
    let x := if 1 < workers && 1 < seeds.length then x.note (.parallel seeds.length workers) else x
    slicesOf (fun s => g.forwardSlice data control limit [s]) seeds x

end ForwardSlicing.DependenceGraph
