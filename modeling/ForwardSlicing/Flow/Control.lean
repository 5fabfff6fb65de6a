import ForwardSlicing.Flow.PostDominator
/-!
# Control dependence

An instruction depends on a node if one way out of the node leads to it for certain and another may miss it. For
each edge, the instructions that depend on its source are found by climbing from its target along immediate
post-dominators, up to the one of the source. A node that cannot reach the exit has none and ends the climb.
-/

namespace ForwardSlicing.FlowGraph

/-- The nodes met while climbing from a node until `stop` or the exit. -/
def climb (ipdom : List (FlowNode × FlowNode)) (stop : Option FlowNode) : Nat → FlowNode → List FlowNode
  | 0, _ => []
  | fuel + 1, n =>
    if some n = stop ∨ n = .exit then []
    else n :: match entryOf ipdom n with
      | some p => climb ipdom stop fuel p
      | none => []

variable (g : FlowGraph)

/-- The nodes that depend on a node, given the immediate post-dominators. A climb visits no node twice, so the number
of nodes is fuel enough. -/
def dependentsVia (ipdom : List (FlowNode × FlowNode)) (n : FlowNode) : List FlowNode :=
  distinct ((g.succs n).flatMap fun s => climb ipdom (entryOf ipdom n) (g.size + 2) s)

/-- The nodes that some node depends on, in node order, each with its dependents. -/
def controlDependence : List (FlowNode × List FlowNode) :=
  let ipdom := g.immediatePostDominators
  (g.nodes.map fun n => (n, g.dependentsVia ipdom n)).filter fun (_, ds) => !ds.isEmpty

end ForwardSlicing.FlowGraph
