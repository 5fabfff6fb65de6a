import ForwardSlicing.Text.Blank
import ForwardSlicing.Text.Digit
/-!
# Integer numerals

An integer may be given as text: digits of any script, a sign before them, single underscores between them and
blanks around them. The information separators do not count as blanks here. A numeral has at most 4300 digits.
-/

namespace ForwardSlicing.Numeral

/-- Why a text is no integer. -/
inductive Fault where
  | malformed
  | tooLong (digits : Nat)
deriving DecidableEq

/-- The longest numeral that is read. -/
def maxDigits : Nat := 4300

/-- A character that may surround a numeral. -/
def isPadding (c : Char) : Bool :=
  Text.isBlank c && !(0x1c ≤ c.toNat && c.toNat ≤ 0x1f)

/-- Splits off a leading run of digits and underscores; no two underscores meet and the run does not end in one. -/
def digitRun (afterDigit : Bool) : List Char → Option (List Nat × List Char)
  | [] => if afterDigit then some ([], []) else none
  | c :: cs =>
    match Text.digitValue? c with
    | some d => (digitRun true cs).map fun (ds, rest) => (d :: ds, rest)
    | none =>
      if c == '_' then if afterDigit then digitRun false cs else none
      else if afterDigit then some ([], c :: cs) else none

/-- A sign in front of a numeral, and what follows it. -/
def splitSign : List Char → Bool × List Char
  | '-' :: cs => (true, cs)
  | '+' :: cs => (false, cs)
  | cs => (false, cs)

/-- The integer that a text denotes. -/
def read (s : String) : Except Fault Int :=
  let (negative, cs) := splitSign (s.toList.dropWhile isPadding)
  match digitRun false cs with
  | none => .error .malformed
  | some (ds, rest) =>
    if maxDigits < ds.length then .error (.tooLong ds.length)
    else if rest.any (!isPadding ·) then .error .malformed
    else
      let n : Nat := ds.foldl (fun n d => 10 * n + d) 0
      .ok (if negative then -(n : Int) else n)

end ForwardSlicing.Numeral
