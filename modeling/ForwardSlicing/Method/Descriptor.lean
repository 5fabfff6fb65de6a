import ForwardSlicing.Text.Quoted
/-!
# Method descriptors

A descriptor gives the parameter types of a method between parentheses, followed by its return type. A field type
is any number of `[`, then a letter for a primitive type, or `L`, a class name and `;`. The return type may also
be `V`. `Descriptor.parse` splits a descriptor and `Descriptor.text` puts the parts together again.
-/

namespace ForwardSlicing

/-- The types in a method descriptor, each as it is written. -/
structure Descriptor where
  params : List String
  result : String
deriving DecidableEq

namespace Descriptor

/-- Why a text is no descriptor. -/
inductive Fault where
  | noOpening
  | noClosing
  | truncated
  | unterminatedObject
  | unexpected (codePoint : Nat)
  | trailing
deriving DecidableEq

def Fault.message : Fault → String
  | .noOpening => "descriptor must start with '('"
  | .noClosing => "missing ')'"
  | .truncated => "truncated type"
  | .unterminatedObject => "unterminated object type"
  | .unexpected n => "unexpected " ++ Text.quoted (Text.ofCodePoints [n]) ++ " in descriptor"
  | .trailing => "trailing characters after return type"

/-- The letters of the primitive types. -/
def isPrimitive (c : Char) : Bool := "BCDFIJSZ".toList.contains c

/-- The return type of a method without a result. -/
def void : String := "V"

/-- The characters of the field type at the start of a text, and the rest. -/
def readType : List Char → Except Fault (List Char × List Char)
  | [] => .error .truncated
  | '[' :: cs => (readType cs).map fun (t, rest) => ('[' :: t, rest)
  | 'L' :: cs =>
    let name := cs.takeWhile (· != ';')
    match cs.drop name.length with
    | [] => .error .unterminatedObject
    | _ :: rest => if name.isEmpty then .error .unterminatedObject else .ok ('L' :: name ++ [';'], rest)
  | c :: cs =>
    if isPrimitive c then .ok ([c], cs) else .error (.unexpected ((Text.codePointsOf (c :: cs)).headD 0))

/-- The field types up to the closing parenthesis, and the rest after it. Each type has at least one character,
so the length of the text is fuel enough. -/
def readParams : Nat → List Char → Except Fault (List String × List Char)
  | _, [] => .error .noClosing
  | _, ')' :: cs => .ok ([], cs)
  | 0, _ => .error .noClosing
  | fuel + 1, cs => do
    let (t, rest) ← readType cs
    let (ts, rest) ← readParams fuel rest
    return (String.ofList t :: ts, rest)

/-- The return type, which has to be all of the text. -/
def readResult (cs : List Char) : Except Fault String :=
  if String.ofList cs = void then .ok void
  else do
    let (t, rest) ← readType cs
    if rest.isEmpty then .ok (String.ofList t) else .error .trailing

/-- Splits a descriptor into its types. -/
def parse (s : String) : Except Fault Descriptor :=
  match s.toList with
  | '(' :: cs => do
    let (params, rest) ← readParams cs.length cs
    return ⟨params, ← readResult rest⟩
  | _ => .error .noOpening

/-- The written form of a descriptor. -/
def text (d : Descriptor) : String :=
  "(" ++ String.join d.params ++ ")" ++ d.result

def returnsVoid (d : Descriptor) : Bool := d.result == void

end Descriptor
end ForwardSlicing
