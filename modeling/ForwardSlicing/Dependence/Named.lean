import ForwardSlicing.Config
import ForwardSlicing.Report.Dot
import ForwardSlicing.Slice
/-!
# Queries with levels given by name

A query may name its levels instead of giving them, and give its budget as any number. A name is looked up when the
query first needs the level, so a name that does not exist fails only then, and after anything that fails before.
-/

namespace ForwardSlicing.DependenceGraph

variable (g : DependenceGraph)

/-- Goes on with the level of a name. -/
def withLevel {α : Type} (kind : DependenceKind) (name : Json) (x : Index) (next : Level → Answer α) : Answer α :=
  match Config.level kind name with
  | .error e => (.error e, x)
  | .ok l => next l

def dataSuccessorsNamed (data : Json) (s : Statement) (x : Index) : Answer (List Statement) :=
  withLevel .data data x fun d => g.dataSuccessors d s x

def controlSuccessorsNamed (control : Json) (s : Statement) (x : Index) : Answer (List Statement) :=
  withLevel .control control x fun c => g.controlSuccessors c s x

/-- The data successors are computed before the level of control dependence is looked up. -/
def bothSuccessorsNamed (data control : Json) (s : Statement) (x : Index) :
    Answer (List Statement × List Statement) :=
  match g.dataSuccessorsNamed data s x with
  | (.error e, x) => (.error e, x)
  | (.ok ds, x) =>
    match g.controlSuccessorsNamed control s x with
    | (.error e, x) => (.error e, x)
    | (.ok cs, x) => (.ok (ds, cs), x)

/-- The largest size that a budget allows, which may be given as any number. None if every size is allowed. -/
def allowed : Json → Except Failure (Option Int)
  | .null => .ok none
  | .float (.infinite true) => .ok (some (-1))
  | .float x => .ok x.floor?
  | v =>
    match v.whole? with
    | some i => .ok (some i)
    | none => .error (.misuse .wrongKind)

/-- A failure by which a slice over its budget names the budget as it was given. -/
def withLimit (limit : Json) : Failure → Failure
  | .truncated l =>
    match limit with
    | .float (.infinite _) => .conversion .infinityToInteger
    | .null => .truncated l
    | limit => .truncated limit
  | e => e

/-- A slice whose budget is looked at after the seeds. -/
def forwardSliceWithin (data control : Level) (limit : Json) (seeds : List Statement) (x : Index) :
    Answer (List Statement) :=
  match g.foreign? seeds, allowed limit with
  | none, .error e => (.error e, x)
  | _, .error _ => g.forwardSlice data control none seeds x
  | _, .ok most =>
    let (slice, x) := g.forwardSlice data control most seeds x
    (slice.mapError (withLimit limit), x)

def forwardSliceNamed (data control limit : Json) (seeds : List Statement) (x : Index) : Answer (List Statement) :=
  withLevel .data data x fun d => withLevel .control control x fun c => g.forwardSliceWithin d c limit seeds x

/-- The seeds are checked before the levels are looked up; without seeds no level is needed. The number of workers
changes no answer, but it has to be a number. -/
def forwardSlicesNamed (data control limit workers : Json) (seeds : List Statement) (x : Index) :
    Answer (List (Statement × List Statement)) :=
  match g.foreign? seeds with
  | some s => (.error (.unknownContext s.context), x)
  | none =>
    if workers.asNumber?.isNone then (.error (.misuse .wrongKind), x)
    else if seeds.isEmpty then (.ok [], x)
    else withLevel .data data x fun d => withLevel .control control x fun c =>
      slicesOf (fun s => g.forwardSliceWithin d c limit [s]) (distinct seeds) x

/-- The first statement of the report is queried first, and an empty report needs no level. -/
def dotNamed (data control : Json) (slice : List Statement) (x : Index) : Answer String :=
  match Statement.sorted slice with
  | [] => Report.dot g .full .full slice x
  | s :: _ =>
    match g.bothSuccessorsNamed data control s x with
    | (.error e, x) => (.error e, x)
    | (.ok _, x) =>
      withLevel .data data x fun d => withLevel .control control x fun c => Report.dot g d c slice x

end ForwardSlicing.DependenceGraph
