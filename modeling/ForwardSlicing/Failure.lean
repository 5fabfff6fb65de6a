import ForwardSlicing.Dependence.Level
import ForwardSlicing.Exclusion.Reader
import ForwardSlicing.Json.Conversion
import ForwardSlicing.Json.Reader
import ForwardSlicing.Program.Procedure
import ForwardSlicing.Text.Utf8
/-!
# Failures

Everything that can go wrong, by cause. `Failure.message` has the wording of each.
-/

namespace ForwardSlicing

/-- What is wrong with a document, or with a list of exclusions. A `place` says where in the document. -/
inductive ModelFault where
  | notObject (place kind : String)
  | notList (place kind : String)
  | notInteger (place : String) (given : Json)
  | notText (place : String) (given : Json)
  | missing (place field : String)
  | unknownOp (place : String) (op : Json)
  | badSite (place : String) (site : Json)
  | badOperand (place : String) (fault : ConversionFault)
  | badTarget (place : String) (fault : InvalidSignature)
  | badSignature (fault : InvalidSignature)
  | negativeParams (signature : String)
  | jumpOutside (method : Method) (index : Nat) (target : Int)
  | notDocument
  | analysesNotObject
  | duplicateProcedure (method : Method)
  | duplicateContext (id : String)
  | unknownProcedure (id : String) (method : Method)
  | unknownId (place id : String)
  | notCallSite (caller : Context) (site : Json)
  | badPattern (pattern : String) (fault : Pattern.LocatedFault)
  | unreadable (path text : String) (fault : Json.ReadFault)

def ModelFault.message : ModelFault → String
  | .notObject place kind => place ++ ": expected an object, got " ++ kind
  | .notList place kind => place ++ ": expected a list, got " ++ kind
  | .notInteger place given => place ++ ": expected an integer, got " ++ given.shown
  | .notText place given => place ++ ": expected a string, got " ++ given.shown
  | .missing place field => place ++ ": missing " ++ Text.quoted field
  | .unknownOp place op => place ++ ": unknown op " ++ op.shown
  | .badSite place site => place ++ ": call site must be a string or an integer, got " ++ site.shown
  | .badOperand place fault => place ++ ": " ++ fault.message
  | .badTarget place fault => place ++ ": " ++ fault.message
  | .badSignature fault => fault.message
  | .negativeParams signature => signature ++ ": negative parameter count"
  | .jumpOutside method index target =>
    method.signature ++ ": instruction " ++ index.repr ++ " jumps to " ++ target.repr ++ " outside the body"
  | .notDocument => "model document must be a JSON object"
  | .analysesNotObject => "analyses: expected an object"
  | .duplicateProcedure method => "duplicate procedure " ++ method.signature
  | .duplicateContext id => "duplicate context id " ++ Text.quoted id
  | .unknownProcedure id method => "context " ++ Text.quoted id ++ ": unknown procedure " ++ method.signature
  | .unknownId place id => place ++ ": unknown context " ++ Text.quoted id
  | .notCallSite caller site => caller.text ++ ": instruction " ++ site.shown ++ " is not a call site"
  | .badPattern pattern fault => "bad exclusion pattern " ++ Text.quoted pattern ++ ": " ++ fault.message pattern
  | .unreadable path text fault => path ++ ": " ++ fault.message text

/-- Why a statement does not exist in a context; positions are as they were given. -/
inductive RangeFault where
  | noInstruction (index : Json)
  | notCall (index : Json)
  | noArgument (call argument : Json)
  | noParameter (param : Json)

/-- The position that was asked for. -/
def RangeFault.position : RangeFault → Json
  | .noInstruction index => index
  | .notCall index => index
  | .noArgument _ argument => argument
  | .noParameter param => param

def RangeFault.message (c : Context) : RangeFault → String
  | .noInstruction index => "index " ++ index.shown ++ " is out of range for " ++ c.text
  | .notCall index => "instruction " ++ index.truncated.repr ++ " of " ++ c.text ++ " is not a call"
  | .noArgument call argument =>
    "call " ++ call.truncated.repr ++ " of " ++ c.text ++ " has no argument " ++ argument.shown
  | .noParameter param => c.text ++ " has no parameter " ++ param.shown

/-- Why a configuration is refused. -/
inductive ConfigFault where
  | unknownKeys (keys : List String)
  | level (fault : UnknownLevel)
  | budgetNotPositive (given : Int)
  | workersNotPositive (given : Int)

def ConfigFault.message : ConfigFault → String
  | .unknownKeys keys => "unknown configuration key(s): " ++ ", ".intercalate keys
  | .level fault => fault.message
  | .budgetNotPositive given => "max_statements must be positive, got " ++ given.repr
  | .workersNotPositive given => "workers must be at least 1, got " ++ given.repr

/-- Why a file cannot be read. -/
inductive FileFault where
  | notFound
  | notDirectory
  | isDirectory
  | nameTooLong
  | invalidName
  | unencodable (first count : Nat) (unit : Nat)
deriving DecidableEq

def FileFault.message (path : String) : FileFault → String
  | .notFound => "[Errno 2] No such file or directory: " ++ Text.quoted path
  | .notDirectory => "[Errno 20] Not a directory: " ++ Text.quoted path
  | .isDirectory => "[Errno 21] Is a directory: " ++ Text.quoted path
  | .nameTooLong => "[Errno 36] File name too long: " ++ Text.quoted path
  | .invalidName => "embedded null byte"
  | .unencodable first count unit =>
    "'utf-8' codec can't encode character" ++
      (if count = 1 then " '\\u" ++ String.ofList (Text.hexDigits 4 unit) ++ "' in position " ++ first.repr
       else "s in position " ++ first.repr ++ "-" ++ (first + count - 1).repr) ++ ": surrogates not allowed"

/-- A use of the library that its callers have to avoid: a value of the wrong kind, an instruction that the body
of a context does not have, one that is not a call where a call is needed, or a text that is nested too deeply. -/
inductive Misuse where
  | wrongKind
  | noInstruction
  | notCall
  | tooDeep
deriving DecidableEq

/-- Everything that can go wrong. -/
inductive Failure where
  | signature (fault : InvalidSignature)
  | model (fault : ModelFault)
  | outOfRange (context : Context) (fault : RangeFault)
  | unknownContext (context : Context)
  | methodNotFound (method : Method)
  | callSiteNotFound (context : Context) (method : Method)
  | ambiguousCallSite (context : Context) (site : CallSite) (indices : List Nat)
  | voidReturn (method : Method)
  | noCallers (method : Method)
  | truncated (limit : Json)
  | unknownAnalysis (name : String) (available : List String)
  | config (fault : ConfigFault)
  | conversion (fault : ConversionFault)
  | document (text : String) (fault : Json.ReadFault)
  | encoding (fault : Text.Utf8Fault)
  | file (path : String) (fault : FileFault)
  | misuse (fault : Misuse)

namespace Failure

def message : Failure → String
  | .signature fault => fault.message
  | .model fault => fault.message
  | .outOfRange context fault => fault.message context
  | .unknownContext context => context.text ++ " is not a node of the call graph"
  | .methodNotFound method => "failed to find method " ++ method.signature
  | .callSiteNotFound context method => "failed to find call to " ++ method.signature ++ " in " ++ context.text
  | .ambiguousCallSite context site indices =>
    "expected 1 instruction for call site " ++ site.shown ++ " in " ++ context.text ++ " but got " ++
      indices.length.repr
  | .voidReturn method =>
    "forward slices are computed from the return value of calls; method " ++ method.signature ++ " returns void"
  | .noCallers method => "failed to find callers for " ++ method.signature
  | .truncated limit => "slice exceeded " ++ limit.truncated.repr ++ " statements"
  | .unknownAnalysis name available =>
    let names := ", ".intercalate available
    "unknown analysis " ++ Text.quoted name ++ " (available: " ++ (if names.isEmpty then "none" else names) ++ ")"
  | .config fault => fault.message
  | .conversion fault => fault.message
  | .document text fault => fault.message text
  | .encoding fault => fault.message
  | .file path fault => fault.message path
  | .misuse _ => ""

/-- A failure that a command reports in one line; any other one ends the program. -/
def isReported : Failure → Bool
  | .conversion (.notNumeric _) => false
  | .conversion (.notIterable _) => false
  | .conversion .infinityToInteger => false
  | .conversion .integerTooLarge => false
  | .conversion .repetitionTooLarge => false
  | .misuse _ => false
  | _ => true

end Failure
end ForwardSlicing
