import ForwardSlicing.CommandLine.Run
/-!
# The program

Reads the files that a command names, runs it with the clock of the machine and writes what it leaves.
-/

namespace ForwardSlicing.CommandLine

/-- The seconds since some fixed time. -/
def seconds : IO Binary64 := do
  let nanoseconds ← IO.monoNanosNow
  return (Binary64.ofInt nanoseconds).div (.ofInt 1000000000)

/-- What reading a path gives. -/
def readPath (path : String) : IO (Except FileFault (List Nat)) := do
  match ← (IO.FS.readBinFile (Text.characters path)).toBaseIO with
  | .ok bytes => return .ok (bytes.toList.map (·.toNat))
  | .error (.inappropriateType _ 21 _) => return .error .isDirectory
  | .error (.inappropriateType _ _ _) => return .error .notDirectory
  | .error (.invalidArgument _ 36 _) => return .error .nameTooLong
  | .error _ => return .error .notFound

/-- The files that options name, each read once. -/
def readFiles (o : Options) : IO Reading := do
  let exclusions := match o.exclusions with
    | .str path => [path]
    | _ => []
  let contents ← (o.model :: exclusions).mapM fun path => do return (path, ← readPath path)
  return fun path => ((contents.find? (·.1 == path)).map (·.2)).getD (.error .notFound)

def leave (o : Outcome) : IO UInt32 := do
  IO.print (Text.characters o.out)
  IO.eprint (Text.characters o.err)
  return o.code.toUInt32

end ForwardSlicing.CommandLine

open ForwardSlicing.CommandLine in
def main (args : List String) : IO UInt32 := do
  match readCommandLine (args.map ForwardSlicing.Text.ofCharacters) with
  | .error stop => leave (stopped stop)
  | .ok r =>
    match ← perform seconds (← readFiles r.options) r with
    | .ok o => leave o
    | .error e =>
      IO.eprintln (ForwardSlicing.Text.characters e.message)
      return 1
