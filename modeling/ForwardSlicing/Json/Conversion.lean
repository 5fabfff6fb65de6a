import ForwardSlicing.Json.Value
import ForwardSlicing.Number.Integer
/-!
# Reading integers and lists out of values

The operands of an instruction are integers, and a document may spell an integer as a number of any kind or as a
numeral. Lists of operands may also be given as a text, which lists its characters, or as an object, which lists
its field names.
-/

namespace ForwardSlicing

/-- Why a value cannot be taken as an integer or as a list. -/
inductive ConversionFault where
  | malformed (text : String)
  | tooLong (digits : Nat)
  | nanToInteger
  | infinityToInteger
  | integerTooLarge
  | repetitionTooLarge
  | notNumeric (kind : String)
  | notIterable (kind : String)
deriving DecidableEq

/-- At most 200 characters of a malformed numeral are shown. -/
def ConversionFault.message : ConversionFault → String
  | .malformed t =>
    "invalid literal for int() with base 10: " ++ String.ofList ((Text.quoted t).toList.take 200)
  | .tooLong n =>
    "Exceeds the limit (4300 digits) for integer string conversion: value has " ++ n.repr ++
      " digits; use sys.set_int_max_str_digits() to increase the limit"
  | .nanToInteger => "cannot convert float NaN to integer"
  | .infinityToInteger => "cannot convert float infinity to integer"
  | .integerTooLarge => "int too large to convert to float"
  | .repetitionTooLarge => "the repetition number is too large"
  | .notNumeric k => "int() argument must be a string, a bytes-like object or a real number, not '" ++ k ++ "'"
  | .notIterable k => "'" ++ k ++ "' object is not iterable"

namespace Json

/-- The integer of a numeral. -/
def integerOfText (s : String) : Except ConversionFault Int :=
  match Numeral.read s with
  | .ok i => .ok i
  | .error .malformed => .error (.malformed s)
  | .error (.tooLong n) => .error (.tooLong n)

/-- A value taken as an integer: fractional numbers lose their fraction, true is one. -/
def toInteger : Json → Except ConversionFault Int
  | .bool b => .ok (if b then 1 else 0)
  | .int i => .ok i
  | .float .nan => .error .nanToInteger
  | .float (.infinite _) => .error .infinityToInteger
  | .float (.finite negative units) => .ok (Binary64.signedUnits negative (units / Binary64.one))
  | .str s => integerOfText s
  | v => .error (.notNumeric v.kindName)

/-- The members of a value taken as a list. -/
def toItems : Json → Except ConversionFault (List Json)
  | .arr items => .ok items
  | .str s => .ok ((Text.codePoints s).map fun n => .str (Text.ofCodePoints [n]))
  | .obj fields => .ok (fields.map fun f => .str f.1)
  | v => .error (.notIterable v.kindName)

/-- Integers of a value taken as a list; the first member that is no integer fails. -/
def toIntegers (v : Json) : Except ConversionFault (List Int) := do
  (← v.toItems).mapM toInteger

end Json
end ForwardSlicing
