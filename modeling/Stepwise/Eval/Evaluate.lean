import Stepwise.Eval.Method
import Stepwise.Expr.Parser

/-!
# Evaluating expressions

An expression is evaluated against the variables in scope. A fault makes the expression unknown
instead of ending the run, unless the run itself is out of its limits. The calls in one expression
are counted, and too many of them are a fault.
-/

namespace Stepwise

open Text

/-- What an expression is evaluated with: its dialect, the limits, and the way user-defined
functions are called. -/
structure Host where
  dialect : Dialect
  limits : Limits
  call : String → List Value → Run Value

/-- Evaluation inside one expression. The state is how many calls are left. -/
abbrev EvalM (α : Type) := StateT Int Run α

namespace Eval

def ofLiteral : Literal → Value
  | .none => .none
  | .bool b => .bool b
  | .int n => .int n
  | .float x => .float x
  | .str s => .str s

/-- Count a call, and fail if it is one too many. -/
def spendCall : EvalM Unit := do
  modify (· - 1)
  if (← get) < 0 then throw .undefined

/-- Call a built-in function if there is one with this name, else a user-defined one. -/
def callNamed (host : Host) (name : String) (args : List Value) : Run Value :=
  match Builtin.find? host.dialect name with
  | some f => f args
  | none => host.call name args

def lookup (scope : Scope) (name : String) : Run Value :=
  match scope.get? name with
  | some v => pure v
  | none => throw .undefined

mutual

/-- The value of an expression. Operands and arguments are evaluated from left to right. -/
def eval (host : Host) (scope : Scope) : Expr → EvalM Value
  | .lit l => pure (ofLiteral l)
  | .var name => lookup scope name
  | .list items => do
    let values ← evalAll host scope items
    Run.onHeap (HeapM.newList values)
  | .unary op operand => do
    let v ← eval host scope operand
    Run.onHeap (Operator.applyUnary op v)
  | .binary op left right => do
    let v ← eval host scope left
    match op with
    | .and => if ← Run.isTrue v then eval host scope right else pure v
    | .or => if ← Run.isTrue v then pure v else eval host scope right
    | .logicalAnd =>
      if ← Run.isTrue v then
        let w ← eval host scope right
        pure (Operator.truth .braced (← Run.isTrue w))
      else pure (.int 0)
    | .logicalOr =>
      if ← Run.isTrue v then pure (.int 1)
      else
        let w ← eval host scope right
        pure (Operator.truth .braced (← Run.isTrue w))
    | op => do
      let w ← eval host scope right
      Run.onHeap (Operator.apply host.dialect op v w)
  | .index target position => do
    let v ← eval host scope target
    let i ← eval host scope position
    Run.fromHeap fun h => Operator.item host.dialect h v i
  | .call name args => do
    spendCall
    let values ← evalAll host scope args
    callNamed host name values
  | .method receiver name args => do
    let v ← eval host scope receiver
    let values ← evalAll host scope args
    Run.onHeap (Method.call v name values)

/-- The values of several expressions, in their order. -/
def evalAll (host : Host) (scope : Scope) : List Expr → EvalM (List Value)
  | [] => pure []
  | e :: rest => do
    let v ← eval host scope e
    pure (v :: (← evalAll host scope rest))

end

end Eval

namespace Host

/-- The value of an expression, unknown if it has none. -/
def evaluate (host : Host) (scope : Scope) (e : Expr) : Run Value :=
  Run.recover ((Eval.eval host scope e).run' host.limits.maxCallsPerExpression)

/-- The value of the expression that a text denotes. A blank text has the value none. -/
def evaluateText (host : Host) (scope : Scope) (text : List Char) : Run Value :=
  let text := trim text
  if text.isEmpty then pure .none
  else
    match Expr.parse host.dialect text with
    | .ok e => host.evaluate scope e
    | .error _ => pure .unknown

/-- The values of several expressions, each on its own. -/
def evaluateEach (host : Host) (scope : Scope) : List Expr → Run (List Value)
  | [] => pure []
  | e :: rest => do
    let v ← host.evaluate scope e
    pure (v :: (← host.evaluateEach scope rest))

/-- The values of several texts, in their order. -/
def evaluateTexts (host : Host) (scope : Scope) : List (List Char) → Run (List Value)
  | [] => pure []
  | text :: rest => do
    let v ← host.evaluateText scope text
    pure (v :: (← host.evaluateTexts scope rest))

/-- The expression that a text denotes, if any. -/
def parse (host : Host) (text : List Char) : Run (Option Expr) :=
  ofExcept (Expr.parse? host.dialect text)

/-- Call a method with given arguments, unknown if that fails. -/
def callMethod (host : Host) (scope : Scope) (receiver : Expr) (name : String) (args : List Value) :
    Run Value :=
  Run.recover do
    let v ← (Eval.eval host scope receiver).run' host.limits.maxCallsPerExpression
    Run.onHeap (Method.call v name args)

/-- The text of a value in an explanation. -/
def describe (host : Host) (v : Value) : Run Text :=
  Run.fromHeap fun h =>
    match host.dialect with
    | .indented => Indented.describe h v
    | .braced => Braced.describe h v

/-- The texts of values in an explanation, with commas between them. -/
def describeAll (host : Host) (values : List Value) : Run Text := do
  pure (joined ", " (← values.mapM host.describe))

/-- The text of a value in the output. -/
def display (host : Host) (v : Value) : Run Text :=
  Run.fromHeap fun h =>
    match host.dialect with
    | .indented => Indented.display h v
    | .braced => Braced.display h v

/-- Record a step under the limits of the host. -/
def record (host : Host) (line : Nat) (kind : StepKind) (explanation : Text) (scope : Scope) :
    Run Unit :=
  Record.step host.limits line kind explanation scope

/-- The result of an operator on two values, unknown if there is none. -/
def combine (host : Host) (op : BinaryOp) (v w : Value) : Run Value :=
  Run.recover (Run.onHeap (Operator.apply host.dialect op v w))

/-- The result of the operator with this symbol, unknown if the dialect has no such operator. -/
def combineSymbol (host : Host) (symbol : String) (v w : Value) : Run Value :=
  match (BinaryOp.applicable host.dialect).find? (·.symbol == symbol) with
  | some op => host.combine op v w
  | none => pure .unknown

/-- Write an item of a list. An index out of range writes nothing. -/
def storeItem (cell : Nat) (index : Int) (v : Value) : Run Bool := do
  let m ← get
  let items := m.heap.items cell
  match Operator.position? items.length index with
  | some i =>
    set { m with heap := m.heap.write cell (items.set i v) }
    pure true
  | none => pure false

/-- A text with the code point at an index replaced by the one with the given number. -/
def replacePoint? (s : Text) (index : Int) (v : Value) : Option Text := do
  let p ← v.int?.bind CodePoint.ofInt?
  if index < s.length then pure (s.set index.toNat p) else none

/-- Write a value to a variable or to an item of a list. In the braced dialect a character of a text
in a variable can be written too. The answer tells whether anything was written. -/
def store (host : Host) (target : Expr) (v : Value) (scope : Scope) : Run (Bool × Scope) := do
  match target with
  | .var name => pure (true, scope.put name v)
  | .index container position =>
    let base ← host.evaluate scope container
    let index ← host.evaluate scope position
    match index.int? with
    | none => pure (false, scope)
    | some i =>
      if host.dialect = .braced ∧ i < 0 then pure (false, scope)
      else
        match base, container with
        | .list cell, _ => pure (← storeItem cell i v, scope)
        | .str s, .var name =>
          match host.dialect, replacePoint? s i v with
          | .braced, some t => pure (true, scope.put name (.str t))
          | _, _ => pure (false, scope)
        | _, _ => pure (false, scope)
  | _ => pure (false, scope)

end Host

end Stepwise
