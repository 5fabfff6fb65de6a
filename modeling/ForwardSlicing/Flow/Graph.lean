import ForwardSlicing.Program.Instruction
/-!
# Flow graphs

The flow graph of a body has a node for each instruction, one where control enters and one where it leaves. An
extra edge from the entry to the exit makes every instruction depend on the entry. A body whose jumps lead outside
has no flow graph.
-/

namespace ForwardSlicing

/-- A node of a flow graph. -/
inductive FlowNode where
  | entry
  | exit
  | instr (index : Nat)
deriving DecidableEq

/-- Why control may follow an edge. -/
inductive FlowLabel where
  | normal
  | start
  | whenTrue
  | whenFalse
deriving DecidableEq

def FlowLabel.text : FlowLabel → String
  | .normal => "normal"
  | .start => "start"
  | .whenTrue => "true"
  | .whenFalse => "false"

/-- An edge of a flow graph. -/
structure FlowEdge where
  source : FlowNode
  target : FlowNode
  label : FlowLabel
deriving DecidableEq

/-- A flow graph: the number of instructions, and the edges by source. -/
structure FlowGraph where
  size : Nat
  edges : List FlowEdge
deriving DecidableEq

namespace FlowGraph

/-- Where control goes on after an instruction that does not jump. -/
def nextNode (size index : Nat) : FlowNode :=
  if index + 1 < size then .instr (index + 1) else .exit

/-- The edges out of the entry. -/
def entryEdges (size : Nat) : List FlowEdge :=
  if size = 0 then [⟨.entry, .exit, .normal⟩] else [⟨.entry, .instr 0, .normal⟩, ⟨.entry, .exit, .start⟩]

/-- The edges out of an instruction. A branch to the next instruction has one edge only. -/
def instructionEdges (size index : Nat) : Instruction → List FlowEdge
  | .branch _ t =>
    let jump := FlowNode.instr t.toNat
    let next := nextNode size index
    ⟨.instr index, jump, .whenTrue⟩ :: if jump = next then [] else [⟨.instr index, next, .whenFalse⟩]
  | .goto t => [⟨.instr index, .instr t.toNat, .normal⟩]
  | .ret _ => [⟨.instr index, .exit, .normal⟩]
  | _ => [⟨.instr index, nextNode size index, .normal⟩]

/-- The flow graph of a body whose jumps stay inside. -/
def ofBody (body : List Instruction) : FlowGraph where
  size := body.length
  edges := entryEdges body.length ++ body.zipIdx.flatMap fun (ins, i) => instructionEdges body.length i ins

/-- The first instruction that jumps outside a body, and where to. -/
def badJump? (body : List Instruction) : Option (Nat × Int) :=
  body.zipIdx.findSome? fun (ins, i) =>
    (ins.jumps.find? fun t => t < 0 || (body.length : Int) ≤ t).map fun t => (i, t)

/-- The flow graph of a body, or its first jump outside. -/
def build (body : List Instruction) : Except (Nat × Int) FlowGraph :=
  match badJump? body with
  | some jump => .error jump
  | none => .ok (ofBody body)

variable (g : FlowGraph)

/-- The entry, the exit, then the instructions in order. -/
def nodes : List FlowNode := .entry :: .exit :: (List.range g.size).map .instr

def edgesFrom (n : FlowNode) : List FlowEdge := g.edges.filter (·.source = n)

def succs (n : FlowNode) : List FlowNode := (g.edgesFrom n).map (·.target)

def preds (n : FlowNode) : List FlowNode := (g.edges.filter (·.target = n)).map (·.source)

end FlowGraph
end ForwardSlicing
