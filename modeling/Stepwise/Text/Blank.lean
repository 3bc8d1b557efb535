import Stepwise.Text.CodePoint
import Stepwise.Text.Ranges

/-!
# Blank characters

The characters that trimming removes and that separate tokens: Unicode white space, and the four
information separators U+001C to U+001F.
-/

namespace Stepwise.Text

/-- Closed ranges of the blank characters, ascending. -/
def blankRanges : List (Nat × Nat) :=
  [(0x9, 0xD), (0x1C, 0x20), (0x85, 0x85), (0xA0, 0xA0), (0x1680, 0x1680), (0x2000, 0x200A),
   (0x2028, 0x2029), (0x202F, 0x202F), (0x205F, 0x205F), (0x3000, 0x3000)]

def isBlank (c : Char) : Bool :=
  inRanges blankRanges c.toNat

/-- The text without the blanks in front. -/
def trimLeft (text : List Char) : List Char :=
  text.dropWhile isBlank

/-- The text without the blanks at its end. -/
def trimRight (text : List Char) : List Char :=
  (text.reverse.dropWhile isBlank).reverse

/-- The text without the blanks at its two ends. -/
def trim (text : List Char) : List Char :=
  trimRight (trimLeft text)

/-- A text without the code points of a set at its two ends. -/
def strip (inSet : CodePoint → Bool) (t : Text) : Text :=
  ((t.dropWhile inSet).reverse.dropWhile inSet).reverse

def isBlankPoint (p : CodePoint) : Bool :=
  inRanges blankRanges p.val

end Stepwise.Text
