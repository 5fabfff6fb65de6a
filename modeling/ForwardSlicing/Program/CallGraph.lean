import ForwardSlicing.Failure
/-!
# Call graphs

The nodes of a call graph are contexts, in the order in which they were first mentioned; a table gives those of each
method. An edge says that the call at an instruction of one context may reach another context. A query about a context
that is not a node is refused.
-/

namespace ForwardSlicing

/-- A call of a context, by the index of its instruction. The index may have been given as a truth value, which stands
for one or zero. -/
structure Invocation where
  caller : Context
  site : Nat
  isTruth : Bool := false

namespace Invocation

/-- The call at an index that was given as an integer. -/
abbrev of (c : Context) (i : Nat) : Invocation := { caller := c, site := i }

/-- The index as it was given. -/
def siteJson (k : Invocation) : Json := if k.isTruth then .bool (k.site == 1) else .int k.site

end Invocation

/-- The call at `site` of `caller` may reach `callee`. -/
structure CallEdge extends Invocation where
  callee : Context

namespace CallEdge

/-- The edge of a call whose index was given as an integer. -/
abbrev of (c : Context) (i : Nat) (d : Context) : CallEdge := { caller := c, site := i, callee := d }

/-- The edge goes from one context to another. -/
def joins (e : CallEdge) (c d : Context) : Bool := e.caller == c && e.callee == d

end CallEdge

/-- The contexts of each method. -/
abbrev MethodTable := List (Method × List Context)

namespace MethodTable

/-- Adds a context behind those of its method. -/
def add (c : Context) : MethodTable → MethodTable
  | [] => [(c.method, [c])]
  | (m, cs) :: rest => if m = c.method then (m, cs ++ [c]) :: rest else (m, cs) :: add c rest

/-- The contexts of a method. -/
def contextsOf (m : Method) : MethodTable → List Context
  | [] => []
  | (m', cs) :: rest => if m' = m then cs else contextsOf m rest

end MethodTable

/-- Contexts, the contexts that the analysis started from, and calls between contexts. -/
structure CallGraph where
  nodes : List Context := []
  byMethod : MethodTable := []
  entrypoints : List Context := []
  edges : List CallEdge := []

/-- The sizes of a call graph. -/
structure CallGraph.Stats where
  contexts : Nat
  edges : Nat
  methods : Nat
  entrypoints : Nat
deriving DecidableEq

namespace CallGraph

/-! ## Building

A request gives its outcome and the call graph it leaves. -/

def addNode (g : CallGraph) (c : Context) : CallGraph :=
  if g.nodes.contains c then g else { g with nodes := g.nodes ++ [c], byMethod := g.byMethod.add c }

def addEntrypoint (g : CallGraph) (c : Context) : CallGraph :=
  let g := g.addNode c
  if g.entrypoints.contains c then g else { g with entrypoints := g.entrypoints ++ [c] }

/-- The index of a call of a context. -/
def callAt? (c : Context) (site : Int) : Option Nat :=
  if site < 0 then none
  else match c.body[site.toNat]? with
    | some (.invoke ..) => some site.toNat
    | _ => none

/-- The edge of a call to a context, for contexts that an earlier edge may already join: a call graph keeps the
contexts of the first edge of a pair. -/
def newEdge (g : CallGraph) (k : Invocation) (callee : Context) : CallEdge :=
  match g.edges.find? (·.joins k.caller callee) with
  | some e => { k with caller := e.caller, callee := e.callee }
  | none => { k with callee := callee }

/-- Adds the contexts of a call and the call itself. An edge that is there already is not added again. -/
def addCall (g : CallGraph) (k : Invocation) (callee : Context) : CallGraph :=
  let g := (g.addNode k.caller).addNode callee
  if g.edges.any fun e => e.joins k.caller callee && e.site == k.site then g
  else { g with edges := g.edges ++ [g.newEdge k callee] }

/-- Records a call. The site has to be a call of the caller. -/
def addEdge (g : CallGraph) (caller : Context) (site : Int) (callee : Context) : Except Failure Unit × CallGraph :=
  match callAt? caller site with
  | none => (.error (.model (.notCallSite caller (.int site))), g)
  | some i => (.ok (), g.addCall (.of caller i) callee)

/-- A number with a fraction is among the instructions of a context, though no instruction has it as its index. -/
def isAmong (c : Context) : Binary64 → Bool
  | .finite negative units => (units = 0 || !negative) && units < c.body.length * Binary64.one
  | _ => false

/-- Records a call whose site may be given as any value. -/
def addEdgeAt (g : CallGraph) (caller : Context) (site : Json) (callee : Context) :
    Except Failure Unit × CallGraph :=
  match site with
  | .int i => g.addEdge caller i callee
  | .bool b =>
    match callAt? caller b.toNat with
    | none => (.error (.model (.notCallSite caller site)), g)
    | some i => (.ok (), g.addCall ⟨caller, i, true⟩ callee)
  | .float x => (.error (if isAmong caller x then .misuse .wrongKind else .model (.notCallSite caller site)), g)
  | _ => (.error (.misuse .wrongKind), g)

/-! ## Neighbours -/

variable (g : CallGraph)

/-- The contexts that the call at an instruction may reach. -/
def calleesAt (c : Context) (site : Nat) : List Context :=
  distinct ((g.edges.filter fun e => e.caller == c && e.site == site).map (·.callee))

/-- The contexts that calls of a context may reach. -/
def callees (c : Context) : List Context :=
  distinct ((g.edges.filter (·.caller == c)).map (·.callee))

/-- The contexts with a call that may reach a context. -/
def callers (c : Context) : List Context :=
  distinct ((g.edges.filter (·.callee == c)).map (·.caller))

/-- The calls that may reach a context: by caller, in the order in which the callers first reached it, then in the
order in which the calls were added. -/
def callsTo (c : Context) : List Invocation :=
  (g.callers c).flatMap fun caller =>
    (g.edges.filter (·.joins caller c)).map fun e => { e.toInvocation with caller := caller }

/-! ## Queries -/

def contains (c : Context) : Bool := g.nodes.contains c

/-- Refuses a context that is not a node. -/
def check (c : Context) : Except Failure Unit :=
  if g.contains c then .ok () else .error (.unknownContext c)

def instructions (c : Context) : Except Failure (List Instruction) := do
  g.check c
  return c.body

def targets (c : Context) (site : Nat) : Except Failure (List Context) := do
  g.check c
  return g.calleesAt c site

/-- The contexts that a call may reach, where the site may be any value. -/
def targetsAt (c : Context) (site : Json) : Except Failure (List Context) :=
  match site.equalInteger? with
  | some (.ofNat i) => g.targets c i
  | _ => do
    g.check c
    return []

def successors (c : Context) : Except Failure (List Context) := do
  g.check c
  return g.callees c

def predecessors (c : Context) : Except Failure (List Context) := do
  g.check c
  return g.callers c

def callSitesTo (c : Context) : Except Failure (List Invocation) := do
  g.check c
  return g.callsTo c

/-- The contexts of a method. -/
def nodesFor (m : Method) : List Context := g.byMethod.contextsOf m

/-- All calls: by caller in node order, then by callee in the order in which it was first reached. -/
def edgesInOrder : List CallEdge :=
  g.nodes.flatMap fun caller =>
    (g.callees caller).flatMap fun callee => g.edges.filter (·.joins caller callee)

def stats : Stats where
  contexts := g.nodes.length
  edges := g.edges.length
  methods := g.byMethod.length
  entrypoints := g.entrypoints.length

/-- A call graph in one line. -/
def text : String :=
  "CallGraph(contexts=" ++ g.nodes.length.repr ++ ", edges=" ++ g.edges.length.repr ++ ")"

end CallGraph
end ForwardSlicing
