import ForwardSlicing.Failure
import ForwardSlicing.Text.Lines
/-!
# Exclusions

A list of exclusions has one pattern in each line; blank lines and lines that start with `#` do not count. A class
is excluded if some pattern matches all of its path.
-/

namespace ForwardSlicing

/-- Patterns with their texts, in order. -/
structure Exclusions where
  patterns : List (String × Pattern) := []

namespace Exclusions

/-- A line without blanks around it, if it holds a pattern. -/
def patternText? (line : String) : Option String :=
  let s := Text.strip line
  if s.isEmpty || s.toList.head? == some '#' then none else some s

/-- The pattern of a text; a repetition number that is too large, or too much nesting, is not a fault of the list. -/
def readPattern (s : String) : Except Failure (String × Pattern) :=
  match Pattern.read s with
  | .ok p => .ok (s, p)
  | .error ⟨.countTooLarge, _⟩ => .error (.conversion .repetitionTooLarge)
  | .error ⟨.countTooLong digits, _⟩ => .error (.conversion (.tooLong digits))
  | .error ⟨.tooDeep, _⟩ => .error (.misuse .tooDeep)
  | .error fault => .error (.model (.badPattern s fault))

/-- The exclusions in lines of text. -/
def ofLines (lines : List String) : Except Failure Exclusions := do
  return ⟨← (lines.filterMap patternText?).mapM readPattern⟩

/-- The exclusions in the text of a file. -/
def ofText (s : String) : Except Failure Exclusions :=
  ofLines (Text.lines (String.ofList (Text.unifyLineEnds s.toList)))

/-- The class is excluded. -/
def excludes (x : Exclusions) (classPath : String) : Bool := x.patterns.any fun p => p.2.matchesAll classPath

def size (x : Exclusions) : Nat := x.patterns.length

def text (x : Exclusions) : String := "ExclusionSet(" ++ x.size.repr ++ " patterns)"

/-- The list that is used unless another one is given. -/
def packagedLines : List String :=
  ["java\\/awt\\/.*", "javax\\/swing\\/.*", "sun\\/awt\\/.*", "sun\\/swing\\/.*", "com\\/sun\\/.*", "sun\\/.*",
   "org\\/netbeans\\/.*", "org\\/openide\\/.*", "com\\/ibm\\/crypto\\/.*", "com\\/ibm\\/security\\/.*",
   "org\\/apache\\/xerces\\/.*", "java\\/security\\/.*", "jdk\\/.*"]

/-- The packaged list of exclusions. -/
def packaged : Except Failure Exclusions := ofLines packagedLines

/-- Where messages say the packaged list comes from. -/
def packagedPath : String := "<data>/exclusions.txt"

end Exclusions
end ForwardSlicing
