import ForwardSlicing.Json.Conversion
/-!
# Durations

A duration in seconds is shown with four significant digits in the largest of milliseconds, seconds, minutes and
hours that it reaches. Reports give whole milliseconds, where a half goes to the even neighbour.
-/

namespace ForwardSlicing.Duration

/-- Text filled with blanks on the left to a width. -/
def padLeft (width : Nat) (s : String) : String :=
  String.ofList (List.replicate (width - s.length) ' ') ++ s

def amount (x : Binary64) (unit : String) : String :=
  padLeft 5 (NumberFormat.brief.text x) ++ " " ++ unit

/-- A duration with its unit. -/
def text (t : Binary64) : String :=
  if t.lt (.ofInt 1) then amount (t.mul (.ofInt 1000)) "ms"
  else if t.lt (.ofInt 60) then amount t "s"
  else if t.lt (.ofInt 3600) then amount (t.div (.ofInt 60)) "m"
  else amount (t.div (.ofInt 3600)) "h"

/-- The whole milliseconds of a duration. -/
def milliseconds (t : Binary64) : Except ConversionFault Int :=
  match t.mul (.ofInt 1000) with
  | .nan => .error .nanToInteger
  | .infinite _ => .error .infinityToInteger
  | .finite negative units => .ok (Binary64.signedUnits negative (Binary64.roundDiv units Binary64.one))

/-- A number of a document as a duration. -/
def ofJson : Json → Except ConversionFault Binary64
  | .float x => .ok x
  | v => do
    match Binary64.ofInt (← v.toInteger) with
    | .infinite _ => .error .integerTooLarge
    | x => .ok x

end ForwardSlicing.Duration
