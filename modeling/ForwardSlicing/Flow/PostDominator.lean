import ForwardSlicing.Flow.Graph
import ForwardSlicing.Reachability
/-!
# Post-dominators

A node post-dominates another if it lies on every path from that one to the exit. It does so exactly when the
exit cannot be reached any more once the node is taken away, which is how the sets are computed. The immediate
post-dominator of a node is the one that all its other proper post-dominators post-dominate.
-/

namespace ForwardSlicing.FlowGraph

variable (g : FlowGraph)

/-- The nodes from which the exit is reachable. -/
def reachingExit : List FlowNode :=
  explore g.preds (g.size + 2) [.exit] [.exit]

/-- The nodes from which the exit is reachable on a path that avoids `b`. -/
def reachingExitWithout (b : FlowNode) : List FlowNode :=
  if b = .exit then [] else explore (fun n => (g.preds n).filter (· ≠ b)) (g.size + 2) [.exit] [.exit]

/-- The post-dominators, itself included, of every node that can reach the exit. -/
def postDominators : List (FlowNode × List FlowNode) :=
  let without := g.nodes.map fun b => (b, g.reachingExitWithout b)
  (g.nodes.filter g.reachingExit.contains).map fun n =>
    (n, (without.filter fun (_, reaching) => !reaching.contains n).map (·.1))

/-- The entry of a node in a table. -/
def entryOf {β : Type} (table : List (FlowNode × β)) (n : FlowNode) : Option β :=
  (table.find? (·.1 = n)).map (·.2)

/-- The member of `ds`, the post-dominators of `n`, that all other proper ones post-dominate. -/
def nearest (table : List (FlowNode × List FlowNode)) (n : FlowNode) (ds : List FlowNode) : Option FlowNode :=
  ds.find? fun p =>
    p ≠ n && ds.all fun q => q = n || q = p || ((entryOf table p).getD []).contains q

/-- The immediate post-dominator of every node, other than the exit, that can reach the exit. -/
def immediatePostDominators : List (FlowNode × FlowNode) :=
  let table := g.postDominators
  table.filterMap fun (n, ds) => if n = .exit then none else (nearest table n ds).map fun p => (n, p)

end ForwardSlicing.FlowGraph
