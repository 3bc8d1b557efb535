import Stepwise.Source.Scan
import Stepwise.Text.Search

/-!
# Lines and blocks

A source text is a list of lines, each with its code, the depth of its block and its number. In the
indented dialect the depth is the column of the first code character, in the braced dialect the
number of braces open before the line. A block is a range of lines that are no less deep than
required; blank lines belong to the block around them.
-/

namespace Stepwise.Source

open Text

/-- A line of a program. -/
structure Line where
  /-- The code without comment and margin. -/
  text : List Char
  depth : Nat
  /-- The position in the source, from zero. -/
  number : Nat
  /-- There is no code to run on the line. -/
  blank : Bool
deriving DecidableEq, Inhabited

/-- A source with its lines laid out. -/
structure Program where
  lines : List Line
  /-- The depth that a block without lines adds to its header. -/
  indentUnit : Nat

/-- A range of lines and the depth of those of its lines that are statements of its own. -/
structure Extent where
  start : Nat
  stop : Nat
  depth : Nat
deriving DecidableEq

namespace Program

def size (p : Program) : Nat := p.lines.length

/-- The line at an index; a blank one beyond the end. -/
def line (p : Program) (i : Nat) : Line := p.lines.getD i ⟨[], 0, i, true⟩

/-- The first index from `start` on whose line leaves a block of the required depth. -/
def blockEnd (p : Program) (start requiredDepth : Nat) : Nat :=
  start + ((p.lines.drop start).takeWhile fun l => l.blank || requiredDepth ≤ l.depth).length

/-- The first index from `start` on whose line holds code. -/
def nextCodeLine (p : Program) (start : Nat) : Nat :=
  start + ((p.lines.drop start).takeWhile (·.blank)).length

/-- The first index from `start` on whose line holds code that is not too deep. -/
def nextStatement (p : Program) (start depth : Nat) : Nat :=
  start + ((p.lines.drop start).takeWhile fun l => l.blank || depth < l.depth).length

/-- The depth of the block that the line at `header` opens. -/
def bodyDepth (p : Program) (header : Nat) : Nat :=
  let first := p.line (p.nextCodeLine (header + 1))
  if (p.line header).depth < first.depth then first.depth
  else (p.line header).depth + p.indentUnit

/-- The lines of the block that the line at `header` opens. -/
def body (p : Program) (header : Nat) : Extent :=
  let depth := p.bodyDepth header
  ⟨header + 1, p.blockEnd (header + 1) depth, depth⟩

end Program

/-- All line ends written as a line feed. -/
def normalizeNewlines : List Char → List Char
  | [] => []
  | '\r' :: '\n' :: rest => '\n' :: normalizeNewlines rest
  | c :: rest => (if c == '\r' then '\n' else c) :: normalizeNewlines rest

/-- The lines of a source, whatever line ends it has. -/
def sourceLines (source : List Char) : List (List Char) :=
  splitOn '\n' (normalizeNewlines source)

/-- A line of the indented dialect. -/
def indentedLine (number : Nat) (raw : List Char) : Line :=
  let code := trimRight (stripComment ['#'] raw)
  let text := trimLeft code
  { text, depth := if text.isEmpty then 0 else code.length - text.length, number
    blank := text.isEmpty }

/-- Layout by indentation. The indent unit is the depth of the first indented line. -/
def indentLayout (source : List Char) : Program :=
  let lines := (sourceLines source).mapIdx indentedLine
  { lines
    indentUnit :=
      match lines.find? fun l => 0 < l.depth with
      | some l => l.depth
      | none => 4 }

/-- The source without block comments, of which the line feeds stay. A comment that is not closed
is none. The first flag tells that the text starts inside a comment, the second that its first
character is the second of a comment marker. -/
def dropBlockComments : Bool → Bool → List Char → List Char
  | _, _, [] => []
  | inside, true, _ :: rest => dropBlockComments inside false rest
  | false, false, c :: rest =>
    if c == '/' && rest.head? == some '*' && occursIn ['*', '/'] (rest.drop 1) then
      dropBlockComments true true rest
    else c :: dropBlockComments false false rest
  | true, false, c :: rest =>
    if c == '*' && rest.head? == some '/' then dropBlockComments false true rest
    else if c == '\n' then '\n' :: dropBlockComments true false rest
    else dropBlockComments true false rest

/-- Only braces, semicolons and blanks. -/
def isPunctuation (text : List Char) : Bool :=
  text.all fun c => c == '\x7b' || c == '\x7d' || c == ';' || isBlank c

/-- A line of the braced dialect with `openBraces` open before it, and the braces open after it. -/
def bracedLine (number openBraces : Nat) (raw : List Char) : Line × Nat :=
  let code := trim (stripComment ['/', '/'] raw)
  let closers := code.takeWhile fun c => isBlank c || c == '\x7d'
  let text := trim (code.drop closers.length)
  let blank := text.head? == some '#' || isPunctuation text
  ({ text := if blank then [] else text
     depth := openBraces - closers.count '\x7d'
     number, blank },
    (openBraces + braceBalance code).toNat)

/-- The lines from a number on, with so many braces open in front of them. -/
def bracedLines : Nat → Nat → List (List Char) → List Line
  | _, _, [] => []
  | number, openBraces, raw :: rest =>
    let (line, after) := bracedLine number openBraces raw
    line :: bracedLines (number + 1) after rest

/-- Layout by braces. -/
def braceLayout (source : List Char) : Program :=
  { lines := bracedLines 0 0 (sourceLines (dropBlockComments false false source))
    indentUnit := 1 }

end Stepwise.Source
