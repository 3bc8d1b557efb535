import Stepwise.Expr.Basic
import Stepwise.Source.Scan

/-!
# Assignments

An assignment is cut at the first equals sign outside literals and brackets that is no part of a
comparison. The characters in front of the sign tell which operator, if any, is combined with it.
-/

namespace Stepwise.Source

open Text

/-- An assignment, its parts still texts. -/
structure Assignment where
  target : List Char
  /-- The operator of a compound assignment. -/
  op : Option BinaryOp
  value : List Char
deriving DecidableEq

namespace Assignment

/-- The sign between target and value. -/
def opSymbol (op : Option BinaryOp) : String :=
  match op with
  | some op => op.symbol ++ "="
  | none => "="

/-- The compound operator whose characters end the text in front of the equals sign, which is given
last character first, and that text without them. -/
def splitOperator : List Char → Option BinaryOp × List Char
  | '/' :: '/' :: front => (some .floorDiv, front)
  | '*' :: '*' :: front => (some .pow, front)
  | '+' :: front => (some .add, front)
  | '-' :: front => (some .sub, front)
  | '*' :: front => (some .mul, front)
  | '/' :: front => (some .div, front)
  | '%' :: front => (some .mod, front)
  | front => (none, front)

/-- The assignment at an equals sign, between the text in front of it, last character first, and
the text behind it. Both sides need some text. -/
def atSign? (front behind : List Char) : Option Assignment :=
  let (op, front) := splitOperator front
  let target := trim front.reverse
  let value := trim behind
  if target.isEmpty || value.isEmpty then none else some ⟨target, op, value⟩

/-- A character that makes a comparison with an equals sign behind it. -/
def isComparison (c : Char) : Bool := c == '=' || c == '!' || c == '<' || c == '>'

/-- Look for the sign of an assignment. The text in front is given last character first. -/
def splitFrom (s : Nesting) (front : List Char) : List Char → Option Assignment
  | [] => none
  | c :: rest =>
    if s.atTop c && c == '=' then
      if rest.head? == some '=' then none
      else if front.head?.any isComparison then splitFrom (s.next c) (c :: front) rest
      else atSign? front rest
    else splitFrom (s.next c) (c :: front) rest

/-- The assignment that a text is, if it is one. -/
def split? (text : List Char) : Option Assignment :=
  splitFrom .start [] text

/-- The targets of the plain assignments that a text starts with, and the value behind them. The
fuel bounds their number. -/
def unchain : Nat → List Char → List (List Char) × List Char
  | 0, text => ([], text)
  | fuel + 1, text =>
    match split? text with
    | some ⟨target, none, value⟩ =>
      let (targets, last) := unchain fuel value
      (target :: targets, last)
    | _ => ([], text)

/-- All targets of an assignment, and the one value that they get. -/
def chain (a : Assignment) : List (List Char) × List Char :=
  match a.op with
  | some _ => ([a.target], a.value)
  | none =>
    let (targets, last) := unchain a.value.length a.value
    (a.target :: targets, last)

end Assignment

end Stepwise.Source
