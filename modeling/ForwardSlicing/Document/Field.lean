import ForwardSlicing.Failure
/-!
# Fields of a document

Accessors that check the kind of a value. Each takes the place in the document that a fault is reported for.
-/

namespace ForwardSlicing.Document

/-- The fields of an object, in order. -/
abbrev Fields := List (String × Json)

def object (place : String) : Json → Except Failure Fields
  | .obj fields => .ok fields
  | v => .error (.model (.notObject place v.kindName))

def list (place : String) : Json → Except Failure (List Json)
  | .arr items => .ok items
  | v => .error (.model (.notList place v.kindName))

def text (place : String) : Json → Except Failure String
  | .str s => .ok s
  | v => .error (.model (.notText place v))

/-- An integer, or a text that is a numeral. -/
def integer (place : String) : Json → Except Failure Int
  | .int i => .ok i
  | .str s =>
    match Json.integerOfText s with
    | .ok i => .ok i
    | .error _ => .error (.model (.notInteger place (.str s)))
  | v => .error (.model (.notInteger place v))

/-- A field that has to be there. -/
def field (place : String) (fields : Fields) (key : String) : Except Failure Json :=
  match Json.lookup fields key with
  | some v => .ok v
  | none => .error (.model (.missing place key))

/-- A field that may be missing. -/
def fieldOr (fields : Fields) (key : String) (default : Json) : Json := (Json.lookup fields key).getD default

/-- A fault in an operand belongs to the place, except that an infinite operand is no fault of the document's
form. -/
def operandFault (place : String) : ConversionFault → Failure
  | .infinityToInteger => .conversion .infinityToInteger
  | fault => .model (.badOperand place fault)

/-- Any value that can be taken as an integer. -/
def operand (place : String) (v : Json) : Except Failure Int :=
  match v.toInteger with
  | .ok i => .ok i
  | .error fault => .error (operandFault place fault)

/-- An operand that is absent if it is null or missing. -/
def operand? (place : String) (fields : Fields) (key : String) : Except Failure (Option Int) :=
  match fieldOr fields key .null with
  | .null => .ok none
  | v => (operand place v).map some

/-- The operands in a field; there are none if it is missing. -/
def operands (place : String) (fields : Fields) (key : String) : Except Failure (List Int) :=
  match (fieldOr fields key (.arr [])).toIntegers with
  | .ok is => .ok is
  | .error fault => .error (operandFault place fault)

end ForwardSlicing.Document
