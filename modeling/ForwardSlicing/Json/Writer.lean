import ForwardSlicing.Json.Value
/-!
# Writing documents

A document is written over several lines, with two blanks for each level. Only visible ASCII characters and the
blank are written as they are; any other is given by its UTF-16 code units.
-/

namespace ForwardSlicing.Json

/-- A UTF-16 code unit as an escape. -/
def unitEscape (n : Nat) : List Char := '\\' :: 'u' :: Text.hexDigits 4 n

/-- A code point inside a written text. -/
def writtenCodePoint (n : Nat) : List Char :=
  if n = '"'.toNat then ['\\', '"']
  else if n = '\\'.toNat then ['\\', '\\']
  else if n = '\n'.toNat then ['\\', 'n']
  else if n = '\r'.toNat then ['\\', 'r']
  else if n = '\t'.toNat then ['\\', 't']
  else if n = 0x0c then ['\\', 'f']
  else if n = 0x08 then ['\\', 'b']
  else if 0x20 ≤ n && n < 0x7f then [Char.ofNat n]
  else if n < 0x10000 then unitEscape n
  else unitEscape (0xd800 + (n - 0x10000) / 0x400) ++ unitEscape (0xdc00 + (n - 0x10000) % 0x400)

/-- A text between double quotes. -/
def writtenText (s : String) : String :=
  String.ofList ('"' :: (Text.codePoints s).flatMap writtenCodePoint ++ ['"'])

/-- A number with a fraction; the infinities and the NaN have names. -/
def writtenFloat : Binary64 → String
  | .nan => "NaN"
  | .infinite n => if n then "-Infinity" else "Infinity"
  | x => NumberFormat.exact.text x

/-- A line end and the blanks of a level. -/
def newLine (level : Nat) : String := "\n" ++ String.ofList (List.replicate (2 * level) ' ')

mutual

/-- A value that starts at a level of nesting. -/
def written (level : Nat) : Json → String
  | .null => "null"
  | .bool b => if b then "true" else "false"
  | .int i => i.repr
  | .float x => writtenFloat x
  | .str s => writtenText s
  | .arr [] => "[]"
  | .arr (x :: xs) => "[" ++ writtenItems (level + 1) (x :: xs) ++ newLine level ++ "]"
  | .obj [] => "\x7b\x7d"
  | .obj (f :: fs) => "\x7b" ++ writtenFields (level + 1) (f :: fs) ++ newLine level ++ "\x7d"

def writtenItems (level : Nat) : List Json → String
  | [] => ""
  | [x] => newLine level ++ x.written level
  | x :: y :: rest => newLine level ++ x.written level ++ "," ++ writtenItems level (y :: rest)

def writtenFields (level : Nat) : List (String × Json) → String
  | [] => ""
  | [(k, v)] => newLine level ++ writtenText k ++ ": " ++ v.written level
  | (k, v) :: f :: rest =>
    newLine level ++ writtenText k ++ ": " ++ v.written level ++ "," ++ writtenFields level (f :: rest)

end

/-- The text of a document. -/
def document (v : Json) : String := v.written 0

end ForwardSlicing.Json
