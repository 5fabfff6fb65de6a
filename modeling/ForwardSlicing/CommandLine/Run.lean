import ForwardSlicing.CommandLine.Log
import ForwardSlicing.CommandLine.Options
import ForwardSlicing.Console
import ForwardSlicing.Criteria
import ForwardSlicing.Document.Model
import ForwardSlicing.Exclusion.Set
import ForwardSlicing.Report.Dot
import ForwardSlicing.Report.Json
import ForwardSlicing.Slice
/-!
# Running commands

A run reads files, keeps the time of its phases on a console and writes a log. It is a function of the files and
of the clock, which is an action of any monad, so that a run can be repeated with a given clock. A failure ends the
phases that are open and is reported in one line.
-/

namespace ForwardSlicing.CommandLine

/-- What a run has written: the console, the log, and the notes that are told only once. -/
structure Session where
  console : Console := {}
  log : List LogEntry := []
  told : List Note := []

/-- A part of a run, which may fail but keeps what was written. -/
abbrev Run (m : Type → Type) (α : Type) := ExceptT Failure (StateT Session m) α

section
variable {m : Type → Type} [Monad m]

def Session.add (s : Session) (e : LogEntry) : Session := { s with log := s.log ++ [e] }

def say (level : LogLevel) (message : String) : Run m Unit := modify (·.add (.note level message))

/-- Writes lines to the console. -/
def output (text : String) (tabs : Int) : Run m Unit :=
  modify fun s => { s with console := s.console.write (.said tabs text) }

def levelOf : Note → LogLevel
  | .parallel _ _ => .info
  | _ => .debug

/-- A note that is told again only after another run. -/
def isToldOnce : Note → Bool
  | .controlling _ _ => true
  | _ => false

/-- Logs a note, unless it was told and need not be told again. -/
def Session.tell (s : Session) (n : Note) : Session :=
  if isToldOnce n && s.told.contains n then s
  else { s.add (.note (levelOf n) n.text) with told := n :: s.told }

/-- Logs notes in their order. -/
def tellAll (notes : List Note) : Run m Unit := modify fun s => notes.foldl Session.tell s

/-- The value of a query, after its notes from the given one on were logged. -/
def answered {α : Type} (before : Nat) (r : DependenceGraph.Answer α) : Run m (α × Index) := do
  tellAll (r.2.notes.drop before)
  return (← r.1, r.2)

/-- A phase, which ends whatever happens in it. -/
def phase {α : Type} (now : m Binary64) (name : String) (body : Run m α) : Run m α := ExceptT.mk do
  let start ← now
  modify fun s => { s with console := s.console.begin start name }
  let result ← body.run
  let stop ← now
  modify fun s => { s with console := (s.console.finish stop).2 }
  return result

/-- The whole milliseconds that the last phase took. -/
def lastMilliseconds : Run m Int := do
  match (← get).console.last with
  | none => return 0
  | some lap =>
    match Duration.milliseconds lap.elapsed with
    | .ok ms => return ms
    | .error fault => throw (.conversion fault)

/-! ## Files -/

/-- The text of a file, with line ends in one form. -/
def readText (files : Reading) (path : String) : Except Failure String :=
  match files path with
  | .error fault => .error (.file path fault)
  | .ok bytes =>
    match Text.decodeUtf8 bytes with
    | .error fault => .error (.encoding fault)
    | .ok text => .ok (String.ofList (Text.unifyLineEnds text.toList))

/-- The value that a file holds. A numeral that is too long, or too much nesting, is not a fault of the document. -/
def readDocument (files : Reading) (path : String) : Except Failure Json := do
  let text ← readText files path
  match Json.read text with
  | .ok v => return v
  | .error (.tooLong digits) => throw (.document text (.tooLong digits))
  | .error .tooDeep => throw (.misuse .tooDeep)
  | .error fault => throw (.model (.unreadable path text fault))

/-- The exclusions of a file, or those of the program if there is no path. -/
def readExclusions (files : Reading) (path : Json) : Run m Exclusions := do
  let (x, place) ← match path with
    | .null => do pure (← Exclusions.packaged, Exclusions.packagedPath)
    | .str p => do pure (← (do Exclusions.ofText (Text.ofCharacters (← readText files p)) : Except Failure Exclusions), p)
    | _ => throw (.misuse .wrongKind)
  say .debug ("loaded " ++ x.size.repr ++ " exclusion patterns from " ++ place)
  return x

/-- The catalog of a file without what is excluded. -/
def openCatalog (now : m Binary64) (files : Reading) (o : Options) : Run m Catalog := do
  let x ← if o.useExclusions then do pure (some (← readExclusions files o.exclusions)) else pure none
  phase now "load" do
    let document ← readDocument files o.model
    let cat ← Catalog.ofJson (fun path => x.any (·.excludes path)) document
    if !cat.excluded.isEmpty then say .info ("excluded " ++ cat.excluded.length.repr ++ " procedure(s)")
    return cat

/-- The model of an analysis. -/
def openModel (cat : Catalog) (name : String) : Run m Model := do
  let fields ← cat.snapshot name
  say .info ("loading " ++ name ++ " analysis (" ++ Catalog.precision name ++ ")")
  let model ← cat.modelOf name fields
  say .info (name ++ ": " ++ model.calls.nodes.length.repr ++ " contexts, " ++ model.calls.edges.length.repr ++
    " call edges, " ++ model.calls.entrypoints.length.repr ++ " entrypoints")
  return model

/-! ## Commands -/

def method (v : Json) : Run m Method :=
  match Method.ofJson v with
  | .ok found => return found
  | .error fault => throw (.signature fault)

/-- An analysis by its name. -/
def analysisName (v : Json) : Run m String :=
  match v with
  | .str name => return name
  | _ => throw (.misuse .wrongKind)

/-- A slice in the format asked for, as text if there is none. -/
def render (o : Options) (config : Config) (g : DependenceGraph) (x : Index) (extra : List (String × Json))
    (slice : List Statement) : Run m String := do
  match o.format with
  | some .json => Report.json extra slice
  | some .dot => return (← answered x.notes.length (Report.dot g config.data config.control slice x)).1
  | _ => return Report.text Report.defaultTitle slice

/-- Slices from the first call of one method in another, once for each analysis. -/
def sliceWith (now : m Binary64) (cat : Catalog) (o : Options) (config : Config) (analysis : Json) : Run m Unit := do
  let name ← analysisName analysis
  let (g, seed, slice, x) ← phase now name do
    let model ← openModel cat name
    let caller ← model.calls.findMethod (← method o.caller)
    let call ← caller.findCallSite (← method o.callee)
    say .info ("Statement: " ++ call.text)
    let seed ← call.returnValue
    let g : DependenceGraph := ⟨model.calls, model.pointsTo⟩
    let (slice, x) ← answered 0 (g.forwardSlice config.data config.control config.maxStatements [seed] {})
    return (g, seed, slice, x)
  let ms ← lastMilliseconds
  output (← render o config g x [("analysis", .str name), ("seed", .str seed.text)] slice) 0
  output (",".intercalate [o.model, o.caller.plain, o.callee.plain, name, ms.repr]) 0

/-- Slices from one call, with each of the analyses asked for. -/
def runSlice (now : m Binary64) (files : Reading) (o : Options) : Run m Unit := do
  let config ← o.config
  let cat ← openCatalog now files o
  let analyses := if o.analyses.isEmpty then cat.analysisNames.map .str else o.analyses
  analyses.forM (sliceWith now cat o config)

/-- Slices from all calls of a method. -/
def runCallers (now : m Binary64) (files : Reading) (o : Options) : Run m Unit := do
  let config ← o.config
  let cat ← openCatalog now files o
  let name ← analysisName (o.analyses.headD .null)
  let (g, seeds, slices, x) ← phase now name do
    let model ← openModel cat name
    let (found, skipped) := model.calls.findAllCallersOf (← method o.callee) o.bestEffort
    skipped.forM fun s => say .warning s.text
    let seeds ← found
    output ("Collected " ++ seeds.length.repr ++ " return sites to use as criteria for slicing") 0
    let g : DependenceGraph := ⟨model.calls, model.pointsTo⟩
    let (slices, x) ← answered 0 (g.forwardSlices config.data config.control config.maxStatements
      config.workers.toNat (Statement.sorted seeds) {})
    let total := slices.foldl (fun n s => n + s.2.length) 0
    output ("Collected " ++ total.repr ++ " statements in slices") 0
    return (g, seeds, slices, x)
  if o.format ≠ some .text then
    let merged := distinct (slices.flatMap (·.2))
    output (← render o config g x [("analysis", .str name), ("seeds", .int seeds.length)] merged) 0
  output (name ++ ": " ++ (← lastMilliseconds).repr ++ " ms") 1

def runCommand (now : m Binary64) (files : Reading) (r : Request) : Run m Unit :=
  match r.command with
  | .slice => runSlice now files r.options
  | .callers => runCallers now files r.options

/-! ## Outcomes -/

/-- What a run leaves: its exit code and what it wrote to both streams. -/
structure Outcome where
  code : Nat
  out : String := ""
  err : String := ""

/-- The least level of the log that is shown. -/
def Options.logLevel (o : Options) : LogLevel :=
  if o.debug then .debug else if o.verbose then .info else .warning

/-- The entries that report a failure. -/
def failureEntries (o : Options) (e : Failure) : List LogEntry :=
  .always ("Error: " ++ e.message) :: if o.verbose then [.always "Traceback"] else []

/-- The outcome of a run that ended with a session. A failure that cannot be reported is passed on. -/
def outcome (o : Options) (result : Except Failure Unit) (s : Session) : Except Failure Outcome :=
  let out := String.join (s.console.lines.map (·.text))
  match result with
  | .ok () => .ok ⟨0, out, logText o.logLevel s.log⟩
  | .error e =>
    if e.isReported then .ok ⟨1, out, logText o.logLevel (s.log ++ failureEntries o e)⟩ else .error e

/-- There is something at a path. A name that no file can have is not looked up at all. -/
def isPresent (files : Reading) (path : String) : Except Failure Bool :=
  match files path with
  | .ok _ => .ok true
  | .error .isDirectory => .ok true
  | .error .nameTooLong => .error (.file path .nameTooLong)
  | .error _ => .ok false

/-- Runs a command that was understood. -/
def perform (now : m Binary64) (files : Reading) (r : Request) : m (Except Failure Outcome) := do
  let o := r.options
  match isPresent files o.model with
  | .error e => return .error e
  | .ok false => return .ok { code := 1, err := "Error: Path '" ++ o.model ++ "' not found\n" }
  | .ok true =>
    let (result, s) ← (runCommand now files r).run.run { console := { verbose := o.verbose } }
    return outcome o result s

end

/-- The outcome of a command that is not run. -/
def stopped : Stop → Outcome
  | .version => { code := 0, out := versionText ++ "\n" }
  | .help => { code := 0 }
  | .refused program message => { code := 2, err := program ++ ": error: " ++ message ++ "\n" }

/-- A clock that tells a time for each reading. -/
def ticking (clock : Nat → Binary64) : StateM Nat Binary64 := do
  let n ← get
  set (n + 1)
  return clock n

/-- Runs a command line with given files and a given clock. -/
def execute (clock : Nat → Binary64) (files : Reading) (words : List String) : Except Failure Outcome :=
  match readCommandLine words with
  | .error stop => .ok (stopped stop)
  | .ok r => ((perform (ticking clock) files r).run 0).1

end ForwardSlicing.CommandLine
