/-!
# Code points

A document can name any UTF-16 code unit, also a surrogate that has no partner and so is no character. A text holds
such a surrogate as the character of an unassigned plane with the same last four digits. Where one of these characters
is meant itself, it stands behind a mark, and so does the mark.

`codePoints` tells what the characters of a text stand for. Texts are ordered, quoted and matched by code points.
-/

namespace ForwardSlicing.Text

def isHighSurrogate (n : Nat) : Bool := 0xd800 ≤ n && n ≤ 0xdbff

def isLowSurrogate (n : Nat) : Bool := 0xdc00 ≤ n && n ≤ 0xdfff

def isSurrogate (n : Nat) : Bool := isHighSurrogate n || isLowSurrogate n

/-- Where the characters that hold surrogates are. -/
def surrogatePlane : Nat := 0xd0000

/-- The character that marks the next one as meant itself. -/
def mark : Nat := 0xde000

/-- The characters that do not stand for themselves: those that hold surrogates, and the mark. -/
def isReserved (n : Nat) : Bool := surrogatePlane ≤ n && isSurrogate (n - surrogatePlane) || n == mark

/-- The number of code points, which stands for a mark without a character to be marked. -/
def codePointCount : Nat := 0x110000

/-- The characters that hold a code point. -/
def ofCodePoint (n : Nat) : List Char :=
  if isSurrogate n then [Char.ofNat (surrogatePlane + n)]
  else if isReserved n then [Char.ofNat mark, Char.ofNat n]
  else [Char.ofNat n]

/-- The text of some code points. -/
def ofCodePoints (ns : List Nat) : String := String.ofList (ns.flatMap ofCodePoint)

/-- The code point that a character stands for which is not marked. -/
def codePoint (c : Char) : Nat :=
  if c.toNat = mark then codePointCount
  else if isReserved c.toNat then c.toNat - surrogatePlane
  else c.toNat

/-- The code points that characters stand for. -/
def codePointsOf : List Char → List Nat
  | [] => []
  | [c] => [codePoint c]
  | c :: d :: cs =>
    if c.toNat = mark ∧ isReserved d.toNat then d.toNat :: codePointsOf cs
    else codePoint c :: codePointsOf (d :: cs)

/-- The code points of a text. -/
def codePoints (s : String) : List Nat := codePointsOf s.toList

/-- The text of characters that all stand for themselves. -/
def ofCharacters (s : String) : String := ofCodePoints (s.toList.map Char.toNat)

/-- A text as it is written to a file, where surrogates cannot be written. -/
def characters (s : String) : String :=
  String.ofList ((codePoints s).map fun n => if isSurrogate n then Char.ofNat 0xfffd else Char.ofNat n)

/-- The order of texts, by code point. -/
def compare (s t : String) : Ordering := List.compareLex Ord.compare (codePoints s) (codePoints t)

def le (s t : String) : Bool := (compare s t).isLE

/-- Texts in their order. -/
def sorted (xs : List String) : List String := xs.mergeSort le

end ForwardSlicing.Text
