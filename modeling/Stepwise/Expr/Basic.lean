import Stepwise.Dialect

/-!
# Expressions

The expression trees of both dialects, their operators, and how tightly operators bind.
-/

namespace Stepwise

/-- Operators with one operand. -/
inductive UnaryOp
  | neg
  | pos
  /-- Negation that gives a truth value. -/
  | not
  /-- Negation that gives zero or one. -/
  | bang
deriving DecidableEq, Repr

/-- Operators with two operands, those of both dialects. -/
inductive BinaryOp
  | or | and
  | logicalOr | logicalAnd
  | eq | ne | lt | gt | le | ge
  | mem | notMem
  | add | sub | mul | div | floorDiv | mod | pow
deriving DecidableEq, Repr

namespace UnaryOp

/-- The operator as it is written. -/
def symbol : UnaryOp → String
  | neg => "-"
  | pos => "+"
  | not => "not"
  | bang => "!"

end UnaryOp

namespace BinaryOp

/-- The operator as it is written. -/
def symbol : BinaryOp → String
  | or => "or" | and => "and"
  | logicalOr => "||" | logicalAnd => "&&"
  | eq => "==" | ne => "!=" | lt => "<" | gt => ">" | le => "<=" | ge => ">="
  | mem => "in" | notMem => "not in"
  | add => "+" | sub => "-" | mul => "*" | div => "/" | floorDiv => "//" | mod => "%"
  | pow => "**"

/-- The operators of a dialect that are applied to two values. -/
def applicable : Dialect → List BinaryOp
  | .indented => [add, sub, mul, div, floorDiv, mod, pow, eq, ne, lt, gt, le, ge, mem, notMem]
  | .braced => [add, sub, mul, div, mod, eq, ne, lt, gt, le, ge]

/-- The operators of a dialect that are written with operator characters. -/
def symbolic : Dialect → List BinaryOp
  | .indented => [eq, ne, lt, gt, le, ge, add, sub, mul, div, floorDiv, mod, pow]
  | .braced => [logicalOr, logicalAnd, eq, ne, lt, gt, le, ge, add, sub, mul, div, mod]

/-- How tightly an operator binds; a higher number binds tighter. -/
def precedence (dialect : Dialect) : BinaryOp → Nat
  | or | logicalOr => 1
  | and | logicalAnd => 2
  | eq | ne => match dialect with | .indented => 4 | .braced => 3
  | lt | gt | le | ge | mem | notMem => 4
  | add | sub => 5
  | mul | div | floorDiv | mod => 6
  | pow => 8

/-- The least precedence of an operator in the right operand. Powers associate to the right. -/
def rightPrecedence (dialect : Dialect) (op : BinaryOp) : Nat :=
  if op = pow then op.precedence dialect else op.precedence dialect + 1

end BinaryOp

/-- The least precedence of an operator below a word negation. -/
def notPrecedence : Nat := 3

/-- The least precedence of an operator below a sign. -/
def signPrecedence : Nat := 7

/-- The values that can be written down directly. -/
inductive Literal
  | none
  | bool (b : Bool)
  | int (n : Int)
  | float (x : Float)
  | str (s : String)
deriving DecidableEq

/-- Expressions of both dialects. -/
inductive Expr
  | lit (value : Literal)
  | var (name : String)
  | list (items : List Expr)
  | unary (op : UnaryOp) (operand : Expr)
  | binary (op : BinaryOp) (left right : Expr)
  | index (target position : Expr)
  | call (function : String) (args : List Expr)
  | method (receiver : Expr) (name : String) (args : List Expr)

/-- The names that stand for literals. -/
def constants : Dialect → List (String × Literal)
  | .indented => [("True", .bool true), ("False", .bool false), ("None", .none)]
  | .braced => [("true", .int 1), ("false", .int 0), ("NULL", .int 0)]

end Stepwise
