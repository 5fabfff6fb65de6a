import ForwardSlicing.Json.Value
import ForwardSlicing.Number.Integer
/-!
# Reading documents

A document is a JSON text; `NaN`, `Infinity` and `-Infinity` are also read. A field given twice keeps its first
place and its last value. The first fault in the text is reported with its position, counted in characters, and
its line and column.
-/

namespace ForwardSlicing.Json

/-- What is wrong at a position of a text. -/
inductive SyntaxFault where
  | expectingValue
  | expectingName
  | expectingColon
  | expectingComma
  | unterminatedText
  | controlCharacter
  | badEscape
  | badUnitEscape
  | extraData
  | byteOrderMark
deriving DecidableEq

def SyntaxFault.message : SyntaxFault → String
  | .expectingValue => "Expecting value"
  | .expectingName => "Expecting property name enclosed in double quotes"
  | .expectingColon => "Expecting ':' delimiter"
  | .expectingComma => "Expecting ',' delimiter"
  | .unterminatedText => "Unterminated string starting at"
  | .controlCharacter => "Invalid control character at"
  | .badEscape => "Invalid \\escape"
  | .badUnitEscape => "Invalid \\uXXXX escape"
  | .extraData => "Extra data"
  | .byteOrderMark => "Unexpected UTF-8 BOM (decode using utf-8-sig)"

/-- Why a text is no document: a fault at a position, an integer with too many digits, or lists and objects nested too
deeply. -/
inductive ReadFault where
  | at (position : Nat) (fault : SyntaxFault)
  | tooLong (digits : Nat)
  | tooDeep
deriving DecidableEq

/-- A place in a text: the characters before it and those from it on. -/
structure Cursor where
  position : Nat
  rest : List Char

namespace Cursor

def fail {α : Type} (c : Cursor) (fault : SyntaxFault) : Except ReadFault α := .error (.at c.position fault)

def advance (c : Cursor) (n : Nat) : Cursor := ⟨c.position + n, c.rest.drop n⟩

def isSpace (c : Char) : Bool := c == ' ' || c == '\t' || c == '\n' || c == '\r'

/-- Skips the white space that may stand between tokens. -/
def skip (c : Cursor) : Cursor :=
  let blanks := c.rest.takeWhile isSpace
  c.advance blanks.length

end Cursor

/-! ## Texts -/

def hexValue? (c : Char) : Option Nat :=
  let n := c.toNat
  if 0x30 ≤ n && n ≤ 0x39 then some (n - 0x30)
  else if 0x61 ≤ n && n ≤ 0x66 then some (n - 0x57)
  else if 0x41 ≤ n && n ≤ 0x46 then some (n - 0x37)
  else none

/-- The code unit that four hexadecimal digits give. -/
def unit? (a b c d : Char) : Option Nat := do
  return (((← hexValue? a) * 16 + (← hexValue? b)) * 16 + (← hexValue? c)) * 16 + (← hexValue? d)

/-- The code point that a one-letter escape stands for. -/
def simpleEscape? : Char → Option Nat
  | '"' => some '"'.toNat
  | '\\' => some '\\'.toNat
  | '/' => some '/'.toNat
  | 'b' => some 0x08
  | 'f' => some 0x0c
  | 'n' => some '\n'.toNat
  | 'r' => some '\r'.toNat
  | 't' => some '\t'.toNat
  | _ => none

/-- A text from after its opening quote, which stands at `start`, to after its closing quote; `acc` holds the code
points so far, last first. A text never ends right after the four digits of a unit escape. -/
def readText (start : Nat) : Nat → List Nat → List Char → Except ReadFault (String × Cursor)
  | _, _, [] => .error (.at start .unterminatedText)
  | pos, acc, '"' :: rest => .ok (Text.ofCodePoints acc.reverse, ⟨pos + 1, rest⟩)
  | _, _, ['\\'] => .error (.at start .unterminatedText)
  | pos, acc, '\\' :: 'u' :: a :: b :: c :: d :: '\\' :: 'u' :: e :: f :: g :: h :: i :: rest =>
    match unit? a b c d with
    | none => .error (.at (pos + 1) .badUnitEscape)
    | some m =>
      if Text.isHighSurrogate m then
        match unit? e f g h with
        | none => .error (.at (pos + 7) .badUnitEscape)
        | some n =>
          if Text.isLowSurrogate n then
            readText start (pos + 12) ((0x10000 + (m - 0xd800) * 0x400 + (n - 0xdc00)) :: acc) (i :: rest)
          else readText start (pos + 6) (m :: acc) ('\\' :: 'u' :: e :: f :: g :: h :: i :: rest)
      else readText start (pos + 6) (m :: acc) ('\\' :: 'u' :: e :: f :: g :: h :: i :: rest)
  | pos, acc, '\\' :: 'u' :: a :: b :: c :: d :: e :: rest =>
    match unit? a b c d with
    | none => .error (.at (pos + 1) .badUnitEscape)
    | some m => readText start (pos + 6) (m :: acc) (e :: rest)
  | pos, _, '\\' :: 'u' :: _ => .error (.at (pos + 1) .badUnitEscape)
  | pos, acc, '\\' :: c :: rest =>
    match simpleEscape? c with
    | none => .error (.at pos .badEscape)
    | some d => readText start (pos + 2) (d :: acc) rest
  | pos, acc, c :: rest =>
    if c.toNat ≤ 0x1f then .error (.at pos .controlCharacter)
    else readText start (pos + 1) (c.toNat :: acc) rest
termination_by _ _ cs => cs.length

/-! ## Numbers -/

def isDigit (c : Char) : Bool := '0' ≤ c && c ≤ '9'

def digitsValue (cs : List Char) : Nat := cs.foldl (fun n c => 10 * n + (c.toNat - 0x30)) 0

/-- The fraction digits after a point, if there are any. -/
def fractionOf : List Char → List Char
  | '.' :: rest => rest.takeWhile isDigit
  | _ => []

/-- The exponent of a number and the count of its characters; nothing if no digit follows the mark. -/
def exponentOf : List Char → Int × Nat
  | e :: rest =>
    if e == 'e' || e == 'E' then
      let (negative, digits, signs) := match rest with
        | '-' :: ds => (true, ds.takeWhile isDigit, 1)
        | '+' :: ds => (false, ds.takeWhile isDigit, 1)
        | ds => (false, ds.takeWhile isDigit, 0)
      if digits.isEmpty then (0, 0)
      else
        let n : Int := digitsValue digits
        (if negative then -n else n, 1 + signs + digits.length)
    else (0, 0)
  | [] => (0, 0)

/-- A number. With a fraction or an exponent it is fractional, otherwise an integer. -/
def readNumber (here : Cursor) : Except ReadFault (Json × Cursor) :=
  let (negative, cs) := match here.rest with
    | '-' :: cs => (true, cs)
    | cs => (false, cs)
  let whole := match cs with
    | '0' :: _ => ['0']
    | _ => cs.takeWhile isDigit
  if whole.isEmpty then here.fail .expectingValue
  else
    let afterWhole := cs.drop whole.length
    let fraction := fractionOf afterWhole
    let fractionSize := if fraction.isEmpty then 0 else fraction.length + 1
    let (exponent, exponentSize) := exponentOf (afterWhole.drop fractionSize)
    let next := here.advance ((if negative then 1 else 0) + whole.length + fractionSize + exponentSize)
    if fractionSize = 0 && exponentSize = 0 then
      if Numeral.maxDigits < whole.length then .error (.tooLong whole.length)
      else
        let n : Int := digitsValue whole
        .ok (.int (if negative then -n else n), next)
    else
      .ok (.float (Binary64.ofDecimal negative (digitsValue (whole ++ fraction)) (exponent - fraction.length)), next)

/-! ## Values -/

/-- The words that are values. -/
def words : List (String × Json) :=
  [("null", .null), ("true", .bool true), ("false", .bool false), ("NaN", .float .nan),
   ("Infinity", .float (.infinite false)), ("-Infinity", .float (.infinite true))]

/-- A word at the cursor. -/
def readWord (c : Cursor) : Option (Json × Cursor) :=
  (words.find? fun w => w.1.toList.isPrefixOf c.rest).map fun w => (w.2, c.advance w.1.length)

/-- How deeply lists and objects may be nested. -/
def maxDepth : Nat := 985

mutual

/-- A value at the cursor, nested `depth` times. Each step reads at least one character, so the length of the text
bounds the steps. -/
def readValue : Nat → Nat → Cursor → Except ReadFault (Json × Cursor)
  | 0, _, c => c.fail .expectingValue
  | fuel + 1, depth, c =>
    match c.rest with
    | '"' :: rest => (readText c.position (c.position + 1) [] rest).map fun (s, c) => (.str s, c)
    | '{' :: _ =>
      let c := (c.advance 1).skip
      if maxDepth ≤ depth then .error .tooDeep
      else match c.rest with
        | '}' :: _ => .ok (.obj [], c.advance 1)
        | _ => readFields fuel (depth + 1) [] c
    | '[' :: _ =>
      let c := (c.advance 1).skip
      if maxDepth ≤ depth then .error .tooDeep
      else match c.rest with
        | ']' :: _ => .ok (.arr [], c.advance 1)
        | _ => readItems fuel (depth + 1) [] c
    | _ =>
      match readWord c with
      | some r => .ok r
      | none => readNumber c

/-- The items of a list, from one of them on. -/
def readItems : Nat → Nat → List Json → Cursor → Except ReadFault (Json × Cursor)
  | 0, _, _, c => c.fail .expectingValue
  | fuel + 1, depth, acc, c => do
    let (v, c) ← readValue fuel depth c
    let c := c.skip
    match c.rest with
    | ']' :: _ => .ok (.arr (v :: acc).reverse, c.advance 1)
    | ',' :: _ => readItems fuel depth (v :: acc) (c.advance 1).skip
    | _ => c.fail .expectingComma

/-- The fields of an object, from one of them on. -/
def readFields : Nat → Nat → List (String × Json) → Cursor → Except ReadFault (Json × Cursor)
  | 0, _, _, c => c.fail .expectingName
  | fuel + 1, depth, acc, c => do
    match c.rest with
    | '"' :: rest =>
      let (key, c) ← readText c.position (c.position + 1) [] rest
      let c := c.skip
      match c.rest with
      | ':' :: _ =>
        let (v, c) ← readValue fuel depth (c.advance 1).skip
        let c := c.skip
        let acc := setField acc key v
        match c.rest with
        | '}' :: _ => .ok (.obj acc, c.advance 1)
        | ',' :: _ => readFields fuel depth acc (c.advance 1).skip
        | _ => c.fail .expectingComma
      | _ => c.fail .expectingColon
    | _ => c.fail .expectingName

end

/-- The value of a document text. -/
def read (s : String) : Except ReadFault Json := do
  let cs := s.toList
  if cs.head? == some (Char.ofNat 0xfeff) then .error (.at 0 .byteOrderMark)
  let (v, c) ← readValue (2 * cs.length + 1) 0 (Cursor.mk 0 cs).skip
  let c := c.skip
  if c.rest.isEmpty then .ok v else c.fail .extraData

/-- A fault with its line, column and position in the text it was found in. -/
def ReadFault.message (s : String) : ReadFault → String
  | .at position fault =>
    let before := s.toList.take position
    let line := before.count '\n' + 1
    let column := (before.reverse.takeWhile (· != '\n')).length + 1
    fault.message ++ ": line " ++ line.repr ++ " column " ++ column.repr ++ " (char " ++ position.repr ++ ")"
  | .tooLong n =>
    "Exceeds the limit (4300 digits) for integer string conversion: value has " ++ n.repr ++
      " digits; use sys.set_int_max_str_digits() to increase the limit"
  | .tooDeep => "nested too deeply"

end ForwardSlicing.Json
