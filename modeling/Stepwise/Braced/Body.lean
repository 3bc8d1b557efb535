import Stepwise.Braced.Header
import Stepwise.Exec.Chain
import Stepwise.Source.Layout

/-!
# Bodies and branches of the braced dialect

The body of a compound statement is a block in braces, the statement on the next line, or statements
on the line of the header itself. An `else` can stand on the line of its `if` or on a later one. All
of this is found in the source before anything runs.
-/

namespace Stepwise.Braced

open Text Source

/-- The text between the first parentheses and the text behind them. -/
def header? (text : List Char) : Option (List Char × List Char) := do
  let first ← indexOf? ['('] text
  let last ← matchParen? text first
  pure (trim ((text.take last).drop (first + 1)), trim (text.drop (last + 1)))

/-- Cut a text behind the first semicolon or closing brace, outside literals and brackets, that an
`else` follows. The text in front is given last character first. -/
def splitElseFrom (s : Nesting) (front : List Char) : List Char → Option (List Char × List Char)
  | [] => none
  | c :: rest =>
    let after := s.next c
    let cut := s.quoting.seesCode c && after.depth == 0 && (c == ';' || c == '\x7d')
    if cut && isElse (trimLeft rest) then
      some (trim (c :: front).reverse, afterElse (trimLeft rest))
    else splitElseFrom after (c :: front) rest

/-- The text in front of an `else` on the same line and the text behind it. -/
def splitElse? (text : List Char) : Option (List Char × List Char) :=
  splitElseFrom .start [] text

/-- The part of a chain of branches that stands on one line. -/
inductive BranchLine
  /-- The guard cannot be made out. -/
  | malformed (text : List Char)
  /-- Nothing follows the body on the line. -/
  | last (guard body : List Char)
  | otherwise (guard body elseBody : List Char)
  | elseIf (guard body : List Char) (rest : BranchLine)

namespace BranchLine

/-- Read a line. The fuel bounds the number of branches on it. -/
def readWith : Nat → List Char → BranchLine
  | 0, text => malformed text
  | fuel + 1, text =>
    match header? text with
    | none => malformed text
    | some (guard, rest) =>
      match splitElse? rest with
      | none => last guard rest
      | some (body, tail) =>
        if isIf tail then elseIf guard body (readWith fuel tail) else otherwise guard body tail

/-- The part of a chain that stands on a line. -/
def read (text : List Char) : BranchLine := readWith (text.length + 1) text

end BranchLine

/-- Where the body of a compound statement stands. -/
inductive Body
  | lines (extent : Extent)
  /-- On the line of the header. -/
  | inline (header : Nat) (statements : List (List Char))

/-- The line where the program goes on after a body. -/
def Body.resume : Body → Nat
  | lines extent => extent.stop
  | inline header _ => header + 1

/-- The statements on the line of a header, with or without braces. -/
def inlineStatements (rest : List Char) : List (List Char) :=
  let inner := match rest with
    | '\x7b' :: inner => if inner.getLast? == some '\x7d' then inner.dropLast else inner
    | rest => rest
  (splitSemicolons inner).filter fun s => !s.isEmpty

section Ends

/-! Where statements end, given where the statement with some text at some later line ends. -/

variable (p : Program) (endOf : Nat → List Char → Nat)

/-- The body of a header at line `i` that is followed by `rest` on its line. -/
def bodyWith (i : Nat) (rest : List Char) : Body :=
  let depth := (p.line i).depth
  let next := p.nextCodeLine (i + 1)
  if rest.isEmpty && !(next < p.size && depth < (p.line next).depth) then
    .lines ⟨next, if next < p.size then endOf next (p.line next).text else next, depth⟩
  else if rest.isEmpty || rest == ['\x7b'] then
    .lines ⟨i + 1, p.blockEnd (i + 1) (depth + 1), depth + 1⟩
  else .inline i (inlineStatements rest)

/-- The first code line after the `else` branches from a line on. -/
def skipElseWith (depth start : Nat) : Nat :=
  let i := p.nextCodeLine start
  if i < p.size && (p.line i).depth == depth && isElse (p.line i).text then
    let tail := afterElse (p.line i).text
    if isIf tail then endOf i tail else p.nextCodeLine (bodyWith p endOf i tail).resume
  else i

/-- The end of the chain of branches of which a part stands on line `i`. -/
def branchEndWith (i : Nat) : BranchLine → Nat
  | .malformed _ => i + 1
  | .last _ body => skipElseWith p endOf (p.line i).depth (bodyWith p endOf i body).resume
  | .otherwise _ _ elseBody => (bodyWith p endOf i elseBody).resume
  | .elseIf _ _ rest => branchEndWith i rest

end Ends

/-- The end of the statement with a text at a line. The fuel bounds the number of lines. -/
def statementEnd (p : Program) : Nat → Nat → List Char → Nat
  | 0, i, _ => i + 1
  | fuel + 1, i, text =>
    if isIf text then branchEndWith p (statementEnd p fuel) i (BranchLine.read text)
    else if isWhile text || isFor text then
      match header? text with
      | some (_, rest) => (bodyWith p (statementEnd p fuel) i rest).resume
      | none => i + 1
    else i + 1

/-- The end of the statement with a text at a line. -/
def endOf (p : Program) : Nat → List Char → Nat := statementEnd p p.size

/-- The body of a header at line `i` that is followed by `rest` on its line. -/
def bodyAt (p : Program) (i : Nat) (rest : List Char) : Body := bodyWith p (endOf p) i rest

/-- The first code line after the `else` branches from a line on. -/
def skipElse (p : Program) (depth start : Nat) : Nat := skipElseWith p (endOf p) depth start

/-- The end of the chain of branches of which a part stands on line `i`. -/
def branchEnd (p : Program) (i : Nat) (line : BranchLine) : Nat := branchEndWith p (endOf p) i line

/-- The chain of branches whose part on line `i` is given, where `later` is the chain that goes on
at a line below. -/
def chainWith (p : Program) (depth : Nat) (later : Nat → Chain Body) (i : Nat) :
    BranchLine → Chain Body
  | .malformed text => .malformed i text
  | .last guard rest =>
    let body := bodyAt p i rest
    .guarded i guard body (skipElse p depth body.resume)
      (let next := p.nextCodeLine body.resume
      let text := (p.line next).text
      if next < p.size && (p.line next).depth == depth && isElse text then
        if isElseIf text then later next
        else
          let last := bodyAt p next (afterElse text)
          .otherwise last last.resume
      else .done body.resume)
  | .otherwise guard rest elseRest =>
    let last := bodyAt p i elseRest
    .guarded i guard (bodyAt p i rest) last.resume (.otherwise last last.resume)
  | .elseIf guard rest more =>
    .guarded i guard (bodyAt p i rest) (branchEnd p i more) (chainWith p depth later i more)

/-- The chain of branches from a line on. The fuel bounds the number of lines. -/
def chainFrom (p : Program) (depth : Nat) : Nat → Nat → Chain Body
  | 0, i => .done i
  | fuel + 1, i =>
    chainWith p depth (chainFrom p depth fuel) i (BranchLine.read (p.line i).text)

/-- The chain of branches that starts at a line. -/
def chainAt (p : Program) (i : Nat) : Chain Body :=
  chainFrom p (p.line i).depth p.size i

end Stepwise.Braced
