import ForwardSlicing.Flow.Control
/-!
# Procedures and contexts

A procedure is a method with its body; parameter `k` arrives in value `k + 1`. An analysis may tell several uses
of one procedure apart by the name of a calling context. A context is identified by its method and its name, so
that is what equality of contexts means here, whatever body they carry.
-/

namespace ForwardSlicing

/-- A method body with its number of parameters. -/
structure Procedure where
  method : Method
  params : Nat
  body : List Instruction
deriving DecidableEq

namespace Procedure

def text (p : Procedure) : String := "Procedure(" ++ p.method.signature ++ ")"

def flow (p : Procedure) : FlowGraph := FlowGraph.ofBody p.body

/-- The flow graph of a procedure in one line. -/
def flowText (p : Procedure) : String :=
  "ControlFlowGraph(" ++ p.method.signature ++ ", nodes=" ++ p.flow.nodes.length.repr ++ ", edges=" ++
    p.flow.edges.length.repr ++ ")"

/-- Where a value is used: the index of the instruction, and the position if it is an argument of a call. -/
def usesOf (p : Procedure) (v : Int) : List (Nat × Option Nat) :=
  p.body.zipIdx.flatMap fun (ins, i) =>
    match ins with
    | .invoke _ args _ _ => (args.zipIdx.filter (·.1 = v)).map fun (_, k) => (i, some k)
    | _ => (ins.uses.filter (· = v)).map fun _ => (i, none)

end Procedure

/-- The context of procedures that are not told apart. -/
def everywhere : String := "Everywhere"

/-- One use of a procedure that the analysis distinguishes. -/
structure Context where
  procedure : Procedure
  name : String

namespace Context

def method (c : Context) : Method := c.procedure.method

def body (c : Context) : List Instruction := c.procedure.body

/-- What identifies a context. -/
def key (c : Context) : Method × String := (c.method, c.name)

instance : BEq Context := ⟨fun a b => a.key == b.key⟩

/-- Method and context name. -/
def place (c : Context) : String := c.method.signature ++ " @ " ++ c.name

/-- A context as messages show it. -/
def text (c : Context) : String := "<" ++ c.place ++ ">"

end Context
end ForwardSlicing
