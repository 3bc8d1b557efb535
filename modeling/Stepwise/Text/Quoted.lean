import Stepwise.Text.Printable

/-!
# Quoted texts

A text is shown between single quotes, or between double quotes when it holds a single quote and no
double quote. Inside, the delimiter and the backslash are escaped, and characters that are not
printable are written by their number. Reading a literal undoes the escapes in `unescape`, which
knows fewer of them.
-/

namespace Stepwise.Text

/-- The last `width` hexadecimal digits of a number, in lower case. -/
def hexDigits : Nat → Nat → List Char
  | 0, _ => []
  | width + 1, n => hexDigits width (n / 16) ++ [Nat.digitChar (n % 16)]

/-- A code point by its number: two, four or eight hexadecimal digits. -/
def escapeCode (p : CodePoint) : Text :=
  let n := p.val
  ofChars <|
    if n < 0x100 then '\\' :: 'x' :: hexDigits 2 n
    else if n < 0x10000 then '\\' :: 'u' :: hexDigits 4 n
    else '\\' :: 'U' :: hexDigits 8 n

/-- One code point inside a text quoted by `delimiter`. -/
def quotePoint (delimiter p : CodePoint) : Text :=
  if p == delimiter || p == '\\' then [↑ '\\', p]
  else if p == '\t' then "\\t"
  else if p == '\n' then "\\n"
  else if p == '\r' then "\\r"
  else if isPrintable p then [p]
  else escapeCode p

/-- Single quotes, unless the text holds some and no double quotes. -/
def delimiterOf (t : Text) : Char :=
  if t.contains (↑ '\'') && !t.contains (↑ '"') then '"' else '\''

/-- The text as a literal. -/
def quote (t : Text) : Text :=
  let delimiter : CodePoint := delimiterOf t
  delimiter :: t.flatMap (quotePoint delimiter) ++ [delimiter]

/-- A text of characters as a literal. -/
def quoteString (s : String) : String := asString (quote s)

/-- Only ASCII characters, with the others by their number. -/
def asciiOnly (t : Text) : Text :=
  t.flatMap fun p => if p.val < 128 then [p] else escapeCode p

/-- The character that a backslash in front of `c` stands for. -/
def unescapeChar (c : Char) : Char :=
  if c == 'n' then '\n'
  else if c == 't' then '\t'
  else if c == 'r' then '\r'
  else if c == '0' then Char.ofNat 0
  else c

/-- The text that the inside of a literal stands for. A backslash at the very end stays. -/
def unescape : List Char → List Char
  | '\\' :: c :: rest => unescapeChar c :: unescape rest
  | c :: rest => c :: unescape rest
  | [] => []

end Stepwise.Text
