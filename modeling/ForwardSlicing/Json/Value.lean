import ForwardSlicing.Number.Decimal
import ForwardSlicing.Text.Quoted
/-!
# Document values

The values of a JSON document. Integers and fractional numbers are kept apart, and an object keeps the order of
its fields. `shown` writes a value the way messages show it, with single-quoted names; `plain` is the same but
leaves a text without quotes.
-/

namespace ForwardSlicing

/-- A value of a document. -/
inductive Json where
  | null
  | bool (b : Bool)
  | int (i : Int)
  | float (x : Binary64)
  | str (s : String)
  | arr (items : List Json)
  | obj (fields : List (String × Json))
deriving Inhabited

namespace Json

/-- The name that messages give to a kind of value. -/
def kindName : Json → String
  | .null => "NoneType"
  | .bool _ => "bool"
  | .int _ => "int"
  | .float _ => "float"
  | .str _ => "str"
  | .arr _ => "list"
  | .obj _ => "dict"

mutual

/-- A value as messages show it. -/
def shown : Json → String
  | .null => "None"
  | .bool b => if b then "True" else "False"
  | .int i => i.repr
  | .float x => NumberFormat.exact.text x
  | .str s => Text.quoted s
  | .arr items => "[" ++ shownItems items ++ "]"
  | .obj fields => "\x7b" ++ shownFields fields ++ "\x7d"

def shownItems : List Json → String
  | [] => ""
  | [x] => x.shown
  | x :: y :: rest => x.shown ++ ", " ++ shownItems (y :: rest)

def shownFields : List (String × Json) → String
  | [] => ""
  | [(k, v)] => Text.quoted k ++ ": " ++ v.shown
  | (k, v) :: f :: rest => Text.quoted k ++ ": " ++ v.shown ++ ", " ++ shownFields (f :: rest)

end

/-- A value inside running text: a text stands for itself. -/
def plain : Json → String
  | .str s => s
  | v => v.shown

/-- Null, false, zero and the empty text, list and object say nothing; every other value does. -/
def isSilent : Json → Bool
  | .null => true
  | .bool b => !b
  | .int i => i == 0
  | .float x => x.same (.finite false 0)
  | .str s => s.isEmpty
  | .arr items => items.isEmpty
  | .obj fields => fields.isEmpty

/-- The field of an object. -/
def lookup (fields : List (String × Json)) (key : String) : Option Json :=
  (fields.find? (·.1 == key)).map (·.2)

/-- Sets a field: at its place if the object has it, at the end otherwise. -/
def setField (fields : List (String × Json)) (key : String) (value : Json) : List (String × Json) :=
  if fields.any (·.1 == key) then fields.map fun f => if f.1 == key then (key, value) else f
  else fields ++ [(key, value)]

/-- The number that a value stands for in a comparison; true and false count as one and zero. -/
def asNumber? : Json → Option (Int ⊕ Binary64)
  | .bool b => some (.inl (if b then 1 else 0))
  | .int i => some (.inl i)
  | .float x => some (.inr x)
  | _ => none

/-- The integer that a truth value or an integer is. -/
def whole? : Json → Option Int
  | .bool b => some (if b then 1 else 0)
  | .int i => some i
  | _ => none

/-- The integer that is equal to a number, if there is one. -/
def equalInteger? : Json → Option Int
  | .float x => x.integer?
  | v => v.whole?

/-- A number without its fraction. -/
def truncated : Json → Int
  | .float x => x.truncate?.getD 0
  | v => v.whole?.getD 0

def sameNumber : Int ⊕ Binary64 → Int ⊕ Binary64 → Bool
  | .inl i, .inl j => i == j
  | .inl i, .inr y => y.equalsInt i
  | .inr x, .inl j => x.equalsInt j
  | .inr x, .inr y => x.same y

mutual

/-- Equality of values: numbers compare by value whatever their kind, objects whatever the order of fields. -/
def same : Json → Json → Bool
  | .null, .null => true
  | .str s, .str t => s == t
  | .arr xs, .arr ys => sameItems xs ys
  | .obj fs, .obj gs => fs.length == gs.length && sameFields fs gs
  | .bool a, y => (y.asNumber?).any (sameNumber (.inl (if a then 1 else 0)))
  | .int i, y => (y.asNumber?).any (sameNumber (.inl i))
  | .float x, y => (y.asNumber?).any (sameNumber (.inr x))
  | _, _ => false

def sameItems : List Json → List Json → Bool
  | [], [] => true
  | x :: xs, y :: ys => x.same y && sameItems xs ys
  | _, _ => false

def sameFields : List (String × Json) → List (String × Json) → Bool
  | [], _ => true
  | (k, v) :: rest, gs => (match lookup gs k with | some w => v.same w | none => false) && sameFields rest gs

end

end Json
end ForwardSlicing
