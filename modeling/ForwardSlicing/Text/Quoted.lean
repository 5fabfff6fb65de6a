import ForwardSlicing.Text.CodePoint
import ForwardSlicing.Text.Visible
/-!
# Quoted text

Messages show a name between quotes, so that blanks and control characters in it can be seen. Single quotes are
used unless the text has a single quote and no double quote. A backslash, the quote in use and every character
that is not visible are written as escapes.
-/

namespace ForwardSlicing.Text

/-- The last `width` hexadecimal digits of a number, in lower case. -/
def hexDigits (width n : Nat) : List Char :=
  match width with
  | 0 => []
  | w + 1 => hexDigits w (n / 16) ++ [Nat.digitChar (n % 16)]

/-- A code point as it stands between the given quotes. -/
def quotedCodePoint (quote : Char) (n : Nat) : List Char :=
  if n == quote.toNat || n == '\\'.toNat then ['\\', Char.ofNat n]
  else if n == '\n'.toNat then ['\\', 'n']
  else if n == '\r'.toNat then ['\\', 'r']
  else if n == '\t'.toNat then ['\\', 't']
  else if isVisible n then ofCodePoint n
  else if n < 0x100 then '\\' :: 'x' :: hexDigits 2 n
  else if n < 0x10000 then '\\' :: 'u' :: hexDigits 4 n
  else '\\' :: 'U' :: hexDigits 8 n

/-- The quote that a text is written with. -/
def quoteFor (cs : List Char) : Char :=
  if cs.contains '\x27' && !cs.contains '"' then '"' else '\x27'

/-- A text between quotes. -/
def quoted (s : String) : String :=
  let q := quoteFor s.toList
  String.ofList (q :: (codePoints s).flatMap (quotedCodePoint q) ++ [q])

end ForwardSlicing.Text
