/-!
# Lines

A file read as text has one line feed for each of the three usual line ends. Splitting a text into lines also
ends a line at the vertical tab, the form feed, the separators U+001C to U+001E, the next-line character and the
two Unicode line and paragraph separators.
-/

namespace ForwardSlicing.Text

/-- Carriage returns, alone or before a line feed, become line feeds. -/
def unifyLineEnds : List Char → List Char
  | [] => []
  | '\r' :: '\n' :: cs => '\n' :: unifyLineEnds cs
  | '\r' :: cs => '\n' :: unifyLineEnds cs
  | c :: cs => c :: unifyLineEnds cs

/-- A character that ends a line by itself. -/
def endsLine (c : Char) : Bool :=
  let n := c.toNat
  (0x0a ≤ n && n ≤ 0x0d) || (0x1c ≤ n && n ≤ 0x1e) || n == 0x85 || n == 0x2028 || n == 0x2029

/-- The lines of a text, without their ends; `acc` holds the characters of an unfinished line, last first. -/
def splitLines (acc : List Char) : List Char → List (List Char)
  | [] => if acc.isEmpty then [] else [acc.reverse]
  | '\r' :: '\n' :: cs => acc.reverse :: splitLines [] cs
  | c :: cs => if endsLine c then acc.reverse :: splitLines [] cs else splitLines (c :: acc) cs

/-- The lines of a text. A text that ends with a line end has no further empty line. -/
def lines (s : String) : List String :=
  (splitLines [] s.toList).map String.ofList

/-- The lines of a text with the characters that end them; `acc` holds an unfinished line, last character first. -/
def splitAfterLines (acc : List Char) : List Char → List (List Char)
  | [] => if acc.isEmpty then [] else [acc.reverse]
  | '\r' :: '\n' :: cs => ('\n' :: '\r' :: acc).reverse :: splitAfterLines [] cs
  | c :: cs => if endsLine c then (c :: acc).reverse :: splitAfterLines [] cs else splitAfterLines (c :: acc) cs

/-- The lines of a text, each with its end. -/
def linesWithEnds (s : String) : List String :=
  (splitAfterLines [] s.toList).map String.ofList

end ForwardSlicing.Text
