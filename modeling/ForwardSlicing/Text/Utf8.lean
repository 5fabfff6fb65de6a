import ForwardSlicing.Text.Quoted
/-!
# UTF-8

Files are read as UTF-8. The first bytes that do not encode a character are reported with the range they take
up: an impossible first byte, a first byte whose continuation is wrong from some point on, or a character cut off
by the end of the file.
-/

namespace ForwardSlicing.Text

/-- Why bytes are no character. -/
inductive Utf8Problem where
  | start
  | continuation
  | truncated
deriving DecidableEq

def Utf8Problem.message : Utf8Problem → String
  | .start => "invalid start byte"
  | .continuation => "invalid continuation byte"
  | .truncated => "unexpected end of data"

/-- The first faulty bytes of a file: their problem, position and count, and the first of them. -/
structure Utf8Fault where
  problem : Utf8Problem
  position : Nat
  count : Nat
  byte : Nat
deriving DecidableEq

def Utf8Fault.message (f : Utf8Fault) : String :=
  let what :=
    if f.count = 1 then
      "byte 0x" ++ String.ofList (hexDigits 2 f.byte) ++ " in position " ++ f.position.repr
    else "bytes in position " ++ f.position.repr ++ "-" ++ (f.position + f.count - 1).repr
  "'utf-8' codec can't decode " ++ what ++ ": " ++ f.problem.message

/-- How many bytes a character with this first byte has, and the least and greatest second byte. -/
def utf8Shape (b : Nat) : Option (Nat × Nat × Nat) :=
  if b < 0xc2 then none
  else if b < 0xe0 then some (2, 0x80, 0xbf)
  else if b = 0xe0 then some (3, 0xa0, 0xbf)
  else if b = 0xed then some (3, 0x80, 0x9f)
  else if b < 0xf0 then some (3, 0x80, 0xbf)
  else if b = 0xf0 then some (4, 0x90, 0xbf)
  else if b < 0xf4 then some (4, 0x80, 0xbf)
  else if b = 0xf4 then some (4, 0x80, 0x8f)
  else none

/-- Reads `need` continuation bytes, the first of them between `lo` and `hi`. `count` bytes of the character,
which stand for `value`, have been read. -/
def continuation (lo hi : Nat) : Nat → Nat → Nat → List Nat → Except (Utf8Problem × Nat) (Nat × List Nat)
  | 0, _, value, bytes => .ok (value, bytes)
  | _ + 1, count, _, [] => .error (.truncated, count)
  | need + 1, count, value, b :: bytes =>
    if lo ≤ b && b ≤ hi then continuation 0x80 0xbf need (count + 1) (value * 64 + b % 64) bytes
    else .error (.continuation, count)

/-- The characters of a file. Every character takes at least one byte, so their number is fuel enough. -/
def decodeUtf8From : Nat → Nat → List Char → List Nat → Except Utf8Fault (List Char)
  | _, _, acc, [] => .ok acc.reverse
  | 0, _, acc, _ => .ok acc.reverse
  | fuel + 1, position, acc, b :: bytes =>
    if b < 0x80 then decodeUtf8From fuel (position + 1) (Char.ofNat b :: acc) bytes
    else match utf8Shape b with
      | none => .error ⟨.start, position, 1, b⟩
      | some (size, lo, hi) =>
        match continuation lo hi (size - 1) 1 (b % Nat.pow 2 (7 - size)) bytes with
        | .error (problem, count) => .error ⟨problem, position, count, b⟩
        | .ok (value, rest) => decodeUtf8From fuel (position + size) (Char.ofNat value :: acc) rest

/-- The text of a file given by its bytes. -/
def decodeUtf8 (bytes : List Nat) : Except Utf8Fault String :=
  (decodeUtf8From bytes.length 0 [] bytes).map String.ofList

end ForwardSlicing.Text
