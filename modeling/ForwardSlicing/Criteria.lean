import ForwardSlicing.Program.Statement
/-!
# Slicing criteria

A slice starts from the value that a call returns. Calls are found in a context by the method they name, or all
over the call graph by the method they reach. Two calls that state the same call site cannot be told apart, and a
call to a method without a result is no criterion.
-/

namespace ForwardSlicing

/-- The statement that holds the value a call returns; any other statement is its own criterion. -/
def Statement.returnValue (s : Statement) : Except Failure Statement :=
  match s.point, s.instruction? with
  | .normal i, some (.invoke target _ _ _) =>
    if target.returnsVoid then .error (.voidReturn target)
    else .ok ⟨s.context, .returned i, { index := s.spelling.index }⟩
  | _, _ => .ok s

namespace Context

/-- The site of a call: the one it states, or else its index. -/
def effectiveSite (site : Option CallSite) (index : Nat) : CallSite := site.getD (.number index)

/-- The calls of a context that name a method: index and effective site. -/
def callsNaming (c : Context) (m : Method) : List (Nat × CallSite) :=
  c.body.zipIdx.filterMap fun (ins, i) =>
    match ins with
    | .invoke target _ _ site => if target = m then some (i, effectiveSite site i) else none
    | _ => none

/-- The indices of the calls at a site. -/
def indicesAt (calls : List (Nat × CallSite)) (site : CallSite) : List Nat :=
  (calls.filter (·.2 = site)).map (·.1)

/-- The first site that several calls share. -/
def sharedSite? (calls : List (Nat × CallSite)) : Option CallSite :=
  (calls.map (·.2)).find? fun site => 1 < (indicesAt calls site).length

/-- The calls of a context that name a method, in order. -/
def findCallsTo (c : Context) (m : Method) : Except Failure (List Statement) :=
  let calls := c.callsNaming m
  if calls.isEmpty then .error (.callSiteNotFound c m)
  else match sharedSite? calls with
    | some site => .error (.ambiguousCallSite c site (indicesAt calls site))
    | none => .ok (calls.map fun (i, _) => .of c (.normal i))

/-- The first call of a context that names a method. -/
def findCallSite (c : Context) (m : Method) : Except Failure Statement := do
  match ← c.findCallsTo m with
  | s :: _ => .ok s
  | [] => .error (.callSiteNotFound c m)

end Context

namespace CallGraph

variable (g : CallGraph)

/-- The first context of a method. -/
def findMethod (m : Method) : Except Failure Context :=
  match g.nodes.find? (·.method = m) with
  | some c => .ok c
  | none => .error (.methodNotFound m)

/-- The contexts with a call that may reach a method. -/
def findCallers (m : Method) : Except Failure (List Context) := do
  let found ← (g.nodesFor m).mapM g.predecessors
  let callers := distinct found.flatten
  if callers.isEmpty then .error (.noCallers m) else return callers

/-- The calls that may reach a method. -/
def callsReaching (m : Method) : Except Failure (List Invocation) := do
  let found ← (g.nodesFor m).mapM g.callSitesTo
  return found.flatten

/-- A call that is no criterion, and why. -/
structure SkippedCall where
  caller : Context
  reason : Failure

def SkippedCall.text (s : SkippedCall) : String :=
  "skipping call in " ++ s.caller.text ++ ": " ++ s.reason.message

/-- The criteria of calls: each gives its return value, or is refused because it returns nothing. -/
def criteriaOf (calls : List Invocation) : List (Context × Except Failure Statement) :=
  calls.map fun k =>
    (k.caller, if (k.caller.body[k.site]?).isNone then .error (.misuse .noInstruction) else k.normal.returnValue)

/-- Goes through criteria in order: a void call is skipped in best effort, any other refusal ends the search. -/
def collect (bestEffort : Bool) : List (Context × Except Failure Statement) → List SkippedCall →
    List Statement → Except Failure (List Statement) × List SkippedCall
  | [], skipped, seeds => (.ok (distinct seeds), skipped)
  | (_, .ok s) :: rest, skipped, seeds => collect bestEffort rest skipped (seeds ++ [s])
  | (caller, .error (.voidReturn m)) :: rest, skipped, seeds =>
    if bestEffort then collect bestEffort rest (skipped ++ [⟨caller, .voidReturn m⟩]) seeds
    else (.error (.voidReturn m), skipped)
  | (_, .error e) :: _, skipped, _ => (.error e, skipped)

/-- The return values of all calls that may reach a method, and the calls skipped on the way. -/
def findAllCallersOf (m : Method) (bestEffort : Bool) : Except Failure (List Statement) × List SkippedCall :=
  match g.callsReaching m with
  | .error e => (.error e, [])
  | .ok calls => if calls.isEmpty then (.error (.noCallers m), []) else collect bestEffort (criteriaOf calls) [] []

end CallGraph
end ForwardSlicing
