import ForwardSlicing.Dependence.Graph
import ForwardSlicing.Report.Text
/-!
# Slices as DOT graphs

A DOT graph has a cluster for each context, a node for each statement, numbered in the order of reports, and an
edge for each dependence between members of the slice: solid for data, dashed for control.
-/

namespace ForwardSlicing.Report

/-- A character inside the quotes of a label. -/
def escapeChar (c : Char) : List Char :=
  if c = '\\' || c = '"' then ['\\', c] else [c]

/-- A label text between its quotes. -/
def escape (s : String) : String := String.ofList (s.toList.flatMap escapeChar)

/-- The name of a node. -/
def nodeName (k : Nat) : String := "s" ++ k.repr

/-- The line of a node. -/
def nodeLine (k : Nat) (s : Statement) : String :=
  "        " ++ nodeName k ++ " [label=\"" ++ escape s.label ++ "\"];"

/-- The lines of cluster `n`, whose first node has number `k`. -/
def clusterLines (n k : Nat) (group : Context × List Statement) : List String :=
  ["    subgraph cluster_" ++ n.repr ++ " \x7b", "        label=\"" ++ escape group.1.text ++ "\";"] ++
    group.2.zipIdx.map (fun (s, i) => nodeLine (k + i) s) ++ ["    \x7d"]

/-- The lines of the clusters from number `n` on, where `k` is the number of the next node. -/
def clustersFrom (n k : Nat) : List (Context × List Statement) → List String
  | [] => []
  | group :: rest => clusterLines n k group ++ clustersFrom (n + 1) (k + group.2.length) rest

/-- The order of edges out of a statement: by target, then by kind. -/
def edgeLe (a b : Statement × DependenceKind) : Bool :=
  ((Statement.compare a.1 b.1).then (Text.compare a.2.text b.2.text)).isLE

def styleOf : DependenceKind → String
  | .data => "solid"
  | .control => "dashed"

/-- The line of an edge. -/
def edgeLine (a b : Nat) (kind : DependenceKind) : String :=
  "    " ++ nodeName a ++ " -> " ++ nodeName b ++ " [style=" ++ styleOf kind ++ "];"

/-- The line of an edge out of a member, if its target is a member. -/
def edgeLine? (members : List Statement) (source : Statement) (edge : Statement × DependenceKind) : Option String := do
  let a ← members.findIdx? (· == source)
  let b ← members.findIdx? (· == edge.1)
  return edgeLine a b edge.2

/-- The lines of the edges out of some of the members. -/
def edgeLines (g : DependenceGraph) (data control : Level) (members : List Statement) :
    List Statement → Index → DependenceGraph.Answer (List String)
  | [], x => (.ok [], x)
  | s :: rest, x =>
    match g.successorEdges data control s x with
    | (.error e, x) => (.error e, x)
    | (.ok edges, x) =>
      match edgeLines g data control members rest x with
      | (.error e, x) => (.error e, x)
      | (.ok lines, x) => (.ok ((edges.mergeSort edgeLe).filterMap (edgeLine? members s) ++ lines), x)

/-- The lines of a DOT graph. -/
def graphLines (groups : List (Context × List Statement)) (edges : List String) : List String :=
  ["digraph Slice \x7b", "    rankdir=TB;", "    node [shape=box, style=filled, fillcolor=lightblue];", ""] ++
    clustersFrom 0 0 groups ++ "" :: edges ++ ["\x7d"]

/-- A slice as a DOT graph. -/
def dot (g : DependenceGraph) (data control : Level) (slice : List Statement) (x : Index) :
    DependenceGraph.Answer String :=
  let groups := byContext slice
  let members := groups.flatMap (·.2)
  match edgeLines g data control members (Statement.sorted slice) x with
  | (.error e, x) => (.error e, x)
  | (.ok edges, x) => (.ok ("\n".intercalate (graphLines groups edges)), x)

end ForwardSlicing.Report
