/-!
# Blank characters

Names and numbers may be surrounded by blanks. A blank is a white-space character of Unicode or one of the four
information separators U+001C to U+001F; the zero-width space is not one.
-/

namespace ForwardSlicing.Text

/-- A character that `strip` takes off the ends of a text. -/
def isBlank (c : Char) : Bool :=
  let n := c.toNat
  (0x09 ≤ n && n ≤ 0x0d) || (0x1c ≤ n && n ≤ 0x20) || n == 0x85 || n == 0xa0 || n == 0x1680 ||
    (0x2000 ≤ n && n ≤ 0x200a) || n == 0x2028 || n == 0x2029 || n == 0x202f || n == 0x205f || n == 0x3000

/-- The characters between the first and the last one that is not blank. -/
def stripChars (cs : List Char) : List Char :=
  ((cs.dropWhile isBlank).reverse.dropWhile isBlank).reverse

/-- A text without the blanks at its ends. -/
def strip (s : String) : String :=
  String.ofList (stripChars s.toList)

end ForwardSlicing.Text
