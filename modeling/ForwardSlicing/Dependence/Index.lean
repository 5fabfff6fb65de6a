import ForwardSlicing.Memo
import ForwardSlicing.Program.CallGraph
import ForwardSlicing.Program.Heap
import ForwardSlicing.Program.Statement
/-!
# The index of a dependence graph

Dependence queries are answered from two tables that are built on first use and kept from then on: one for each
procedure, found by its method, and one of all heap reads of the call graph. The index also notes what was done,
for those who want to follow a run.
-/

namespace ForwardSlicing

/-- Something that happened during a query, worth telling. -/
inductive Note where
  | controlling (method : Method) (nodes : Nat)
  | heapReads (fields : Nat)
  | sliced (seeds statements : Nat)
  | parallel (seeds workers : Nat)
deriving DecidableEq

def Note.text : Note → String
  | .controlling method nodes => method.signature ++ ": " ++ nodes.repr ++ " controlling nodes"
  | .heapReads fields => "indexed heap reads of " ++ fields.repr ++ " fields"
  | .sliced seeds statements => "slice of " ++ seeds.repr ++ " seed(s): " ++ statements.repr ++ " statements"
  | .parallel seeds workers => "slicing " ++ seeds.repr ++ " seeds on " ++ workers.repr ++ " workers"

/-- What is kept of a procedure: its body, for the uses of values, and its control dependence. -/
structure ProcedureTable where
  procedure : Procedure
  control : List (FlowNode × List FlowNode)

namespace ProcedureTable

def ofProcedure (p : Procedure) : ProcedureTable := ⟨p, p.flow.controlDependence⟩

/-- The nodes that depend on a node. -/
def dependents (t : ProcedureTable) (n : FlowNode) : List FlowNode :=
  (FlowGraph.entryOf t.control n).getD []

end ProcedureTable

/-- An instruction that reads the heap. -/
structure HeapRead where
  location : HeapLocation
  reader : Statement

/-- The heap reads of a context. -/
def HeapRead.ofContext (c : Context) : List HeapRead :=
  c.body.zipIdx.filterMap fun (ins, i) => (HeapLocation.read? c ins).map fun l => ⟨l, .of c (.normal i)⟩

/-- The tables built so far, and the notes taken. -/
structure Index where
  tables : Memo Method ProcedureTable := {}
  reads : Option (List HeapRead) := none
  notes : List Note := []

namespace Index

def note (x : Index) (n : Note) : Index := { x with notes := x.notes ++ [n] }

/-- The table of a procedure, which is that of the first procedure of its method. -/
def table (x : Index) (p : Procedure) : ProcedureTable := (x.tables.find? p.method).getD (.ofProcedure p)

/-- Makes sure that a procedure has a table. -/
def withTable (x : Index) (p : Procedure) : Index :=
  { x with tables := x.tables.demand p.method fun _ => .ofProcedure p }

/-- Makes sure that the heap reads of a call graph are collected. -/
def withReads (x : Index) (calls : CallGraph) : Index :=
  if x.reads.isSome then x
  else
    let found : List HeapRead := calls.nodes.flatMap HeapRead.ofContext
    let fields := distinct (found.map fun (r : HeapRead) => r.location.field)
    Index.note { x with reads := some found } (.heapReads fields.length)

/-- Notes that the control dependence of a procedure was asked for, once for each method. -/
def noteControl (x : Index) (p : Procedure) : Index :=
  let n := Note.controlling p.method (x.table p).control.length
  if x.notes.contains n then x else x.note n

end Index
end ForwardSlicing
