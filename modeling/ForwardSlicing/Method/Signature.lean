import ForwardSlicing.Json.Value
import ForwardSlicing.Method.Descriptor
import ForwardSlicing.Text.Blank
/-!
# Methods

A method is named by its class, its name and its descriptor, written together as a signature:
`com.example.Shop.price(I)J`. A signature may give the class with slashes instead of dots; both spellings name
the same method.
-/

namespace ForwardSlicing

/-- A reference to a method. -/
structure Method where
  className : String
  name : String
  descriptor : Descriptor
deriving DecidableEq

/-- What is wrong with a signature. -/
inductive SignatureFault where
  | notText
  | noDescriptor
  | noClass
  | noClassOrName
  | descriptor (fault : Descriptor.Fault)
deriving DecidableEq

def SignatureFault.message : SignatureFault → String
  | .notText => "expected a string"
  | .noDescriptor => "missing descriptor"
  | .noClass => "missing declaring class"
  | .noClassOrName => "missing class or method name"
  | .descriptor f => f.message

/-- A signature that was refused, and why. -/
structure InvalidSignature where
  given : Json
  reason : SignatureFault

def InvalidSignature.message (e : InvalidSignature) : String :=
  "invalid method signature " ++ e.given.shown ++ ": " ++ e.reason.message

namespace Method

/-- Name and descriptor, without the class. -/
def selector (m : Method) : String := m.name ++ m.descriptor.text

/-- The written form of a method. -/
def signature (m : Method) : String := m.className ++ "." ++ m.selector

/-- A text with every occurrence of one character replaced by another. -/
def replaceChar (a b : Char) (s : String) : String :=
  String.ofList (s.toList.map fun c => if c = a then b else c)

/-- The class name with slashes, the form that exclusion patterns speak of. -/
def classPath (m : Method) : String := replaceChar '.' '/' m.className

def returnsVoid (m : Method) : Bool := m.descriptor.returnsVoid

/-- A method from its parts; class and name may not be empty. -/
def ofParts (className name descriptor : String) : Except InvalidSignature Method :=
  let refuse (reason : SignatureFault) : Except InvalidSignature Method :=
    .error ⟨.str (className ++ "." ++ name ++ descriptor), reason⟩
  if className.isEmpty || name.isEmpty then refuse .noClassOrName
  else match Descriptor.parse descriptor with
    | .ok d => .ok ⟨className, name, d⟩
    | .error f => refuse (.descriptor f)

/-- Cuts characters at the last dot. -/
def cutAtLastDot (cs : List Char) : Option (List Char × List Char) :=
  let name := (cs.reverse.takeWhile (· != '.')).reverse
  match cs.reverse.drop name.length with
  | [] => none
  | _ :: cls => some (cls.reverse, name)

/-- The method that a signature names. The descriptor starts at the first parenthesis, and the last dot before it
ends the class, which may not be empty. Blanks around the signature do not count. -/
def ofSignature (s : String) : Except InvalidSignature Method :=
  let cs := Text.stripChars s.toList
  let refuse (reason : SignatureFault) : Except InvalidSignature Method := .error ⟨.str (String.ofList cs), reason⟩
  let head := cs.takeWhile (· != '(')
  let descriptor := cs.drop head.length
  if descriptor.isEmpty then refuse .noDescriptor
  else match cutAtLastDot head with
    | some (c :: cls, name) =>
      ofParts (replaceChar '/' '.' (String.ofList (c :: cls))) (String.ofList name) (String.ofList descriptor)
    | _ => refuse .noClass

/-- The method that a document value names. -/
def ofJson : Json → Except InvalidSignature Method
  | .str s => ofSignature s
  | v => .error ⟨v, .notText⟩

end Method
end ForwardSlicing
