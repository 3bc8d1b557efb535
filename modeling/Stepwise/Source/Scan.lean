import Stepwise.Text.Blank

/-!
# Scanning a line

A line is scanned from left to right, and what a character means depends on whether it stands in a
literal and inside brackets. `Quoting` follows literals, `Nesting` follows literals and brackets.
The functions below cut a line at such places.
-/

namespace Stepwise.Source

open Text

/-- The character opens a literal. -/
def isQuote (c : Char) : Bool := c == '"' || c == '\''

def isOpener (c : Char) : Bool := c == '(' || c == '[' || c == '\x7b'

def isCloser (c : Char) : Bool := c == ')' || c == ']' || c == '\x7d'

/-- Where a scan stands with respect to string and character literals. -/
inductive Quoting
  | code
  /-- Inside a literal that `delimiter` ends; `escaped` holds right after a backslash. -/
  | literal (delimiter : Char) (escaped : Bool)
deriving DecidableEq, Repr

namespace Quoting

/-- The state behind one more character. A backslash in a literal hides the next one. -/
def next : Quoting → Char → Quoting
  | code, c => if isQuote c then literal c false else code
  | literal d true, _ => literal d false
  | literal d false, c =>
    if c == '\\' then literal d true else if c == d then code else literal d false

/-- The character is outside literals and does not open one. -/
def seesCode (q : Quoting) (c : Char) : Bool :=
  match q with
  | code => !isQuote c
  | literal _ _ => false

end Quoting

/-- Where a scan stands with respect to literals and brackets. -/
structure Nesting where
  quoting : Quoting
  depth : Int
deriving DecidableEq, Repr

namespace Nesting

/-- Outside literals and brackets. -/
def start : Nesting := ⟨.code, 0⟩

/-- The state behind one more character. The depth can go below zero. -/
def next (s : Nesting) (c : Char) : Nesting :=
  ⟨s.quoting.next c,
    if s.quoting.seesCode c then
      if isOpener c then s.depth + 1 else if isCloser c then s.depth - 1 else s.depth
    else s.depth⟩

/-- The character is outside literals and brackets, and is none of these itself. -/
def atTop (s : Nesting) (c : Char) : Bool :=
  s.quoting.seesCode c && !isOpener c && !isCloser c && s.depth == 0

end Nesting

/-- The text in front of the first `marker` that begins outside literals. -/
def stripCommentFrom (marker : List Char) : Quoting → List Char → List Char
  | _, [] => []
  | q, c :: rest =>
    if q.seesCode c && marker.isPrefixOf (c :: rest) then []
    else c :: stripCommentFrom marker (q.next c) rest

/-- The text in front of the first marker outside literals. -/
def stripComment (marker text : List Char) : List Char :=
  stripCommentFrom marker .code text

/-- Opening braces less closing braces, outside literals. -/
def braceBalanceFrom : Quoting → List Char → Int
  | _, [] => 0
  | q, c :: rest =>
    (if q.seesCode c then if c == '\x7b' then 1 else if c == '\x7d' then -1 else 0 else 0)
      + braceBalanceFrom (q.next c) rest

/-- How many braces outside literals are opened more than closed. -/
def braceBalance (text : List Char) : Int :=
  braceBalanceFrom .code text

/-- The pieces between the separators that stand outside literals and brackets. -/
def topLevelPieces (isSeparator : Char → Bool) : Nesting → List Char → List (List Char)
  | _, [] => [[]]
  | s, c :: rest =>
    match topLevelPieces isSeparator (s.next c) rest with
    | piece :: pieces =>
      if s.atTop c && isSeparator c then [] :: piece :: pieces else (c :: piece) :: pieces
    | [] => [[c]]

/-- The trimmed pieces between the separators; a blank text without separators has none. -/
def splitTopLevel (isSeparator : Char → Bool) (text : List Char) : List (List Char) :=
  match (topLevelPieces isSeparator .start text).map trim with
  | [[]] => []
  | pieces => pieces

/-- The parts between commas at the top level. -/
def splitCommas (text : List Char) : List (List Char) :=
  splitTopLevel (· == ',') text

/-- The parts between semicolons at the top level. -/
def splitSemicolons (text : List Char) : List (List Char) :=
  splitTopLevel (· == ';') text

/-- The position of the parenthesis that closes the one at the head of the text, which stands at
`position`. Here a quote ends its literal unless the character right before it is a backslash. -/
def closingFrom (delimiter : Option Char) (before : Char) (depth : Int) (position : Nat) :
    List Char → Option Nat
  | [] => none
  | c :: rest =>
    match delimiter with
    | some d =>
      let inside := if c == d && before != '\\' then none else some d
      closingFrom inside c depth (position + 1) rest
    | none =>
      if isQuote c then closingFrom (some c) c depth (position + 1) rest
      else if c == '(' then closingFrom none c (depth + 1) (position + 1) rest
      else if c == ')' then
        if depth == 1 then some position else closingFrom none c (depth - 1) (position + 1) rest
      else closingFrom none c depth (position + 1) rest

/-- The position of the parenthesis that closes the one at `position`. -/
def matchParen? (text : List Char) (position : Nat) : Option Nat :=
  closingFrom none ' ' 0 position (text.drop position)

end Stepwise.Source
