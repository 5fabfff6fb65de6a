import ForwardSlicing.Document.Procedure
import ForwardSlicing.Program.CallGraph
import ForwardSlicing.Program.Heap
/-!
# Program models

A document holds the procedures of a program once, and what each analysis found out about it: the contexts it
told apart, the entry points, the calls between contexts and the points-to facts. A `Catalog` holds the
procedures; loading an analysis from it gives a `Model`, which is what slices are computed on.

Procedures of excluded classes are left out, together with their contexts and everything said about these.
-/

namespace ForwardSlicing

/-- The procedures and the analyses of a document. -/
structure Catalog where
  analyses : List (String × Json)
  procedures : List Procedure
  excluded : List Method
  excludes : String → Bool

/-- What one analysis found out about a program. `contexts` gives the contexts by their ids in the document. -/
structure Model where
  name : String
  calls : CallGraph
  pointsTo : PointsTo
  contexts : List (String × Context)

def Model.text (m : Model) : String := "ProgramModel(" ++ m.name ++ ", " ++ m.calls.text ++ ")"

namespace Catalog

/-! ## Procedures -/

/-- The procedure of a method. -/
def find? (procedures : List Procedure) (m : Method) : Option Procedure := procedures.find? (·.method = m)

/-- Adds a procedure of the document, unless its class is excluded. -/
def addProcedure (cat : Catalog) (v : Json) : Except Failure Catalog := do
  let p ← Document.procedure v
  if cat.excludes p.method.classPath then
    return { cat with excluded := if cat.excluded.contains p.method then cat.excluded else cat.excluded ++ [p.method] }
  else if (find? cat.procedures p.method).isSome then .error (.model (.duplicateProcedure p.method))
  else return { cat with procedures := cat.procedures ++ [p] }

/-- The catalog of a document; `excludes` tells the class paths to leave out. -/
def ofJson (excludes : String → Bool) (v : Json) : Except Failure Catalog :=
  match v with
  | .obj fields =>
    match Document.fieldOr fields "analyses" (.obj []) with
    | .obj analyses => do
      let items ← Document.list "procedures" (Document.fieldOr fields "procedures" (.arr []))
      items.foldlM addProcedure ⟨analyses, [], [], excludes⟩
    | _ => .error (.model .analysesNotObject)
  | _ => .error (.model .notDocument)

def analysisNames (cat : Catalog) : List String := cat.analyses.map (·.1)

/-! ## Contexts -/

/-- What is known of the contexts of an analysis: those by id, the ids left out, and the calls so far. -/
structure Loading where
  contexts : List (String × Context) := []
  dropped : List String := []
  calls : CallGraph := {}
  pointsTo : PointsTo := {}

/-- The context with an id. -/
def Loading.context? (l : Loading) (id : String) : Option Context := (l.contexts.find? (·.1 == id)).map (·.2)

/-- The place of a context in the document. -/
def contextPlace (id : String) : String := "context " ++ Text.quoted id

/-- Adds a context. An id may be used once. -/
def addContext (cat : Catalog) (l : Loading) (v : Json) : Except Failure Loading := do
  let fields ← Document.object "context" v
  let id ← Document.text "context id" (← Document.field "context" fields "id")
  if (l.context? id).isSome || l.dropped.contains id then .error (.model (.duplicateContext id))
  let m ← Document.method (← Document.field (contextPlace id) fields "procedure")
  if cat.excludes m.classPath then return { l with dropped := l.dropped ++ [id] }
  else match find? cat.procedures m with
    | none => .error (.model (.unknownProcedure id m))
    | some p =>
      let name ← Document.text (contextPlace id) (Document.fieldOr fields "context" (.str everywhere))
      return { l with contexts := l.contexts ++ [(id, ⟨p, name⟩)], calls := l.calls.addNode ⟨p, name⟩ }

/-- The context that an id refers to, or nothing if it was left out. -/
def resolve (l : Loading) (place : String) (v : Json) : Except Failure (Option Context) := do
  let id ← Document.text place v
  if l.dropped.contains id then return none
  else match l.context? id with
    | some c => return some c
    | none => .error (.model (.unknownId place id))

/-! ## Facts about contexts -/

def addEntrypoint (l : Loading) (v : Json) : Except Failure Loading := do
  match ← resolve l "entrypoint" v with
  | some c => return { l with calls := l.calls.addEntrypoint c }
  | none => return l

def addEdge (l : Loading) (v : Json) : Except Failure Loading := do
  let fields ← Document.object "edge" v
  let caller ← resolve l "edge" (← Document.field "edge" fields "caller")
  let callee ← resolve l "edge" (← Document.field "edge" fields "callee")
  match caller, callee with
  | some caller, some callee =>
    let site ← Document.integer "edge site" (← Document.field "edge" fields "site")
    let added := l.calls.addEdge caller site callee
    added.1
    return { l with calls := added.2 }
  | _, _ => return l

def addFact (l : Loading) (v : Json) : Except Failure Loading := do
  let fields ← Document.object "points_to" v
  match ← resolve l "points_to" (← Document.field "points_to" fields "context") with
  | none => return l
  | some c =>
    let value ← Document.integer "points_to value" (← Document.field "points_to" fields "value")
    let items ← Document.list "points_to objects" (Document.fieldOr fields "objects" (.arr []))
    let objects ← items.mapM (Document.text "points_to object")
    return { l with pointsTo := l.pointsTo.add c value objects }

/-! ## Analyses -/

/-- Adds the entries of a section, which may be missing. -/
def addSection (fields : Document.Fields) (key : String) (add : Loading → Json → Except Failure Loading)
    (l : Loading) : Except Failure Loading := do
  let items ← Document.list key (Document.fieldOr fields key (.arr []))
  items.foldlM add l

/-- What the document says about an analysis. -/
def snapshot (cat : Catalog) (name : String) : Except Failure Document.Fields :=
  match Json.lookup cat.analyses name with
  | none => .error (.unknownAnalysis name cat.analysisNames)
  | some v => Document.object ("analysis " ++ Text.quoted name) v

/-- The model that the fields of an analysis describe. -/
def modelOf (cat : Catalog) (name : String) (fields : Document.Fields) : Except Failure Model := do
  let l ← addSection fields "contexts" cat.addContext {}
  let l ← addSection fields "entrypoints" addEntrypoint l
  let l ← addSection fields "edges" addEdge l
  let l ← addSection fields "points_to" addFact l
  return ⟨name, l.calls, l.pointsTo, l.contexts⟩

/-- The model of an analysis. -/
def load (cat : Catalog) (name : String) : Except Failure Model := do
  cat.modelOf name (← cat.snapshot name)

/-- How precise a known analysis is. -/
def precision (name : String) : String :=
  match name with
  | "0cfa" => "context-insensitive"
  | "vanilla-1cfa" => "1-call-site-sensitive"
  | "container-1cfa" => "1-call-site-sensitive for container classes"
  | _ => "custom precision"

end Catalog

/-- The model of an analysis of a document; `excludes` tells the class paths to leave out. -/
def Model.ofJson (excludes : String → Bool) (doc : Json) (name : String) : Except Failure Model := do
  (← Catalog.ofJson excludes doc).load name

end ForwardSlicing
