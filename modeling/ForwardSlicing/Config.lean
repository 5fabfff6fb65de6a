import ForwardSlicing.Failure
/-!
# Configuration

The choices of a run: what is followed, how large a slice may grow, what happens to calls without a result, and
which classes are left out.
-/

namespace ForwardSlicing

/-- A configuration. What is only passed on is kept as it was given. -/
structure Config where
  data : Level := .full
  control : Level := .full
  maxStatements : Option Int := none
  bestEffort : Json := .bool false
  workers : Int := 1
  exclusions : Json := .null
  useExclusions : Json := .bool true

namespace Config

/-- The keys that a configuration may have. -/
def knownKeys : List String :=
  ["data", "control", "max_statements", "best_effort", "workers", "exclusions", "use_exclusions"]

def level (kind : DependenceKind) (v : Json) : Except Failure Level :=
  match Level.parse kind v with
  | .ok l => .ok l
  | .error fault => .error (.config (.level fault))

def integer (v : Json) : Except Failure Int :=
  match v.toInteger with
  | .ok i => .ok i
  | .error fault => .error (.conversion fault)

/-- A budget has to be positive. -/
def checkedBudget (n : Int) : Except Failure Int :=
  if n < 1 then .error (.config (.budgetNotPositive n)) else .ok n

/-- There has to be a worker. -/
def checkedWorkers (n : Int) : Except Failure Int :=
  if n < 1 then .error (.config (.workersNotPositive n)) else .ok n

/-- A budget that may be absent. -/
def budget (v : Json) : Except Failure (Option Int) :=
  match v with
  | .null => .ok none
  | v => do return some (← checkedBudget (← integer v))

/-- A configuration from values by key; the levels are checked first, then the budget and the workers. -/
def ofValues (values : List (String × Json)) : Except Failure Config := do
  let value (key : String) (default : Json) : Json := (Json.lookup values key).getD default
  let data ← level .data (value "data" (.str "FULL"))
  let control ← level .control (value "control" (.str "FULL"))
  let maxStatements ← budget (value "max_statements" .null)
  let workers ← checkedWorkers (← integer (value "workers" (.int 1)))
  return {
    data, control, maxStatements, workers
    bestEffort := value "best_effort" (.bool false)
    exclusions := value "exclusions" .null
    useExclusions := value "use_exclusions" (.bool true) }

/-- A configuration from a section of a file, where a key that is not known is an error. -/
def ofMapping (values : List (String × Json)) : Except Failure Config :=
  let unknown := (values.map (·.1)).filter (!knownKeys.contains ·)
  if unknown.isEmpty then ofValues values
  else .error (.config (.unknownKeys (Text.sorted unknown)))

/-- A configuration from the options of a command, which say whether exclusions are not to be used. -/
def ofOptions (values : List (String × Json)) : Except Failure Config :=
  let unused := ((Json.lookup values "no_exclusions").getD (.bool false)).isSilent
  ofValues (Json.setField values "use_exclusions" (.bool unused))

end Config
end ForwardSlicing
