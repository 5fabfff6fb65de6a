import ForwardSlicing.CommandLine.Argument
import ForwardSlicing.CommandLine.Path
import ForwardSlicing.Config
import ForwardSlicing.Number.Integer
/-!
# The commands and their options

There are two commands: `slice` slices from one call, `callers` from all calls of a method.
-/

namespace ForwardSlicing.CommandLine

/-- How a slice is written. -/
inductive Format where
  | text
  | json
  | dot
deriving DecidableEq

namespace Format

def all : List Format := [.text, .json, .dot]

def name : Format → String
  | .text => "text"
  | .json => "json"
  | .dot => "dot"

end Format

/-- The commands. -/
inductive Command where
  | slice
  | callers
deriving DecidableEq

namespace Command

def all : List Command := [.slice, .callers]

def name : Command → String
  | .slice => "slice"
  | .callers => "callers"

end Command

/-- What was given to a command. An option whose value is missing, because it is nothing but `--`, gives an empty list,
and no format. -/
structure Options where
  model : String := "."
  data : Json := .str Level.full.name
  control : Json := .str Level.full.name
  maxStatements : Json := .null
  format : Option Format := some .text
  exclusions : Json := .null
  useExclusions : Bool := true
  verbose : Bool := false
  debug : Bool := false
  caller : Json := .null
  callee : Json := .null
  analyses : List Json := []
  bestEffort : Bool := false
  workers : Json := .int 1

namespace Options

/-- The configuration that the options ask for. -/
def config (o : Options) : Except Failure Config :=
  Config.ofValues [("data", o.data), ("control", o.control), ("max_statements", o.maxStatements),
    ("best_effort", .bool o.bestEffort), ("workers", o.workers), ("exclusions", o.exclusions),
    ("use_exclusions", .bool o.useExclusions)]

end Options

/-! ## Values of arguments -/

/-- One of several words, or what is wrong with a word. -/
def choice {α : Type} (all : List α) (name : α → String) (word : String) : Except String α :=
  match all.find? fun x => name x == word with
  | some x => .ok x
  | none => .error ("invalid choice: " ++ Text.quoted word ++ " (choose from " ++
      ", ".intercalate (all.map fun x => Text.quoted (name x)) ++ ")")

def levelValue (kind : DependenceKind) (word : String) : Except String Json :=
  match Level.parse kind (.str word) with
  | .ok l => .ok (.str l.name)
  | .error _ => .error ("invalid parse value: " ++ Text.quoted word)

def integerValue (word : String) : Except String Json :=
  match Numeral.read word with
  | .ok i => .ok (.int i)
  | .error _ => .error ("invalid int value: " ++ Text.quoted word)

def pathValue (word : String) : Except String Json := .ok (.str (Path.normal word))

def textValue (word : String) : Except String Json := .ok (.str word)

/-- The effect of an argument whose value is read on its own. -/
def given (read : String → Except String Json) (set : Json → Options → Options) : Effect Options :=
  .value fun word o =>
    match word with
    | some w => do return set (← read w) o
    | none => .ok (set (.arr []) o)

/-- The model, which is never without a value: it is the first argument by position. -/
def modelEffect : Effect Options :=
  .value fun word o => .ok { o with model := Path.normal (word.getD "") }

def formatEffect : Effect Options :=
  .value fun word o => do
    match word with
    | some w => return { o with format := some (← choice Format.all Format.name w) }
    | none => return { o with format := none }

/-! ## Grammars -/

def helpArgument {σ : Type} : Argument σ := { names := ["-h", "--help"], label := "help", effect := .stop .help }

/-- The arguments that both commands have. -/
def commonArguments : List (Argument Options) :=
  [helpArgument,
   { label := "model", required := true, effect := modelEffect },
   { names := ["--data"], label := "data"
     effect := given (levelValue .data) fun v o => { o with data := v } },
   { names := ["--control"], label := "control"
     effect := given (levelValue .control) fun v o => { o with control := v } },
   { names := ["--max-statements"], label := "max_statements"
     effect := given integerValue fun v o => { o with maxStatements := v } },
   { names := ["--format", "-f"], label := "format", effect := formatEffect },
   { names := ["--exclusions"], label := "exclusions"
     effect := given pathValue fun v o => { o with exclusions := v } },
   { names := ["--no-exclusions"], label := "no_exclusions"
     effect := .flag fun o => { o with useExclusions := false } },
   { names := ["--verbose", "-v"], label := "verbose", effect := .flag fun o => { o with verbose := true } },
   { names := ["--debug", "-d"], label := "debug", effect := .flag fun o => { o with debug := true } }]

/-- The method whose calls are sliced. -/
def calleeArgument : Argument Options :=
  { label := "callee", required := true, effect := given textValue fun v o => { o with callee := v } }

def programName : String := "flowslice"

/-- The program and its version. -/
def versionText : String := "flowslice 0.1.0"

/-- The arguments of a command. -/
def grammar (command : Command) : Grammar Options where
  program := programName ++ " " ++ command.name
  arguments := match command with
    | .slice => commonArguments ++
      [{ label := "caller", required := true, effect := given textValue fun v o => { o with caller := v } },
       calleeArgument,
       { names := ["--analysis", "-a"], label := "analysis"
         effect := given textValue fun v o => { o with analyses := o.analyses ++ [v] } }]
    | .callers => commonArguments ++
      [calleeArgument,
       { names := ["--analysis", "-a"], label := "analysis", required := true
         effect := given textValue fun v o => { o with analyses := [v] } },
       { names := ["--best-effort"], label := "best_effort"
         effect := .flag fun o => { o with bestEffort := true } },
       { names := ["--workers", "-j"], label := "workers"
         effect := given integerValue fun v o => { o with workers := v } }]

/-- A command with its options, and the words that belong to none of them. -/
structure Request where
  command : Command
  options : Options
  extras : List String

/-- Reads the name of a command and its arguments. -/
def readRequest (words : List String) : Except Stop Request :=
  let given := words.headD ""
  match choice Command.all Command.name given with
  | .error message => .error (.refused programName ("argument command: " ++ message))
  | .ok command => do
    let (options, extras) ← (grammar command).parse {} words.tail
    return ⟨command, options, extras⟩

/-- The grammar of the program, whose one place takes a command and all that follows. -/
def programGrammar : Grammar (Option Request) where
  program := programName
  arguments :=
    [helpArgument,
     { names := ["--version"], label := "version", effect := .stop .version },
     { label := "command", required := true, effect := .rest fun words _ => do return some (← readRequest words) }]

/-- Reads a command line. Words that belong nowhere are refused. -/
def readCommandLine (words : List String) : Except Stop Request := do
  let (request, extras) ← programGrammar.parse none words
  match request with
  | none => programGrammar.refuse "the following arguments are required: command"
  | some r =>
    let extras := extras ++ r.extras
    if extras.isEmpty then return r
    else programGrammar.refuse ("unrecognized arguments: " ++ " ".intercalate extras)

end ForwardSlicing.CommandLine
