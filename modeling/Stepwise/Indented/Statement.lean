import Stepwise.Exec.Flow
import Stepwise.Indented.Header
import Stepwise.Source.Assignment

/-!
# Simple statements of the indented dialect

Output, assignments, method calls and other expressions, each recorded as one step. What looks like
an assignment and cannot be one is taken for an expression.
-/

namespace Stepwise.Indented

open Text Source

/-- The argument text of a `print` call that is the whole statement. -/
def printArguments? (text : List Char) : Option (List Char) := do
  let rest ← printRest? text
  if matchParen? ('(' :: rest) 0 = some rest.length then some rest.dropLast else none

/-- What a `print` call writes: its values, and the texts between and after them. -/
structure Printing where
  values : List Value := []
  separator : Text := " "
  ending : Text := "\n"

/-- Evaluate the arguments of a `print` call. Unknown keywords are ignored, values included. -/
def printing (host : Host) (scope : Scope) : List (List Char) → Printing → Run Printing
  | [], acc => pure acc
  | arg :: rest, acc => do
    let acc ← match keywordArgument? arg with
      | none => do
        let v ← host.evaluateText scope arg
        pure { acc with values := acc.values ++ [v] }
      | some ("sep", value) => do
        let v ← host.evaluateText scope value
        pure { acc with separator := ← host.display v }
      | some ("end", value) => do
        let v ← host.evaluateText scope value
        pure { acc with ending := ← host.display v }
      | some _ => pure acc
    printing host scope rest acc

/-- Write the arguments of a `print` and record a step. -/
def print (host : Host) (line : Nat) (args : List Char) (scope : Scope) : Run Unit := do
  let parts ← printing host scope (splitCommas args) {}
  let out := joined parts.separator (← parts.values.mapM host.display)
  Record.write out parts.ending
  host.record line .print ("Output: " ++ out) scope

/-- One value for every target of a chain, from left to right. -/
def assignChain (host : Host) (line : Nat) (chain : List (List Char)) (value : List Char)
    (scope : Scope) : Run (Option Scope) := do
  match ← host.parseTargets chain with
  | none => pure none
  | some targets =>
    let v ← host.evaluateText scope value
    let scope ← host.storeEach (targets.map (·, v)) scope
    let shown := joinWith " = " (chain.map String.ofList)
    let described ← host.describe v
    host.record line .assignment (s!"{shown} = " ++ described) scope
    pure (some scope)

/-- Combine the value of the target with another one. -/
def assignCombined (host : Host) (line : Nat) (target : Expr) (a : Assignment) (op : BinaryOp)
    (scope : Scope) : Run Scope := do
  let v ← host.evaluateText scope a.value
  let current ← host.evaluate scope target
  let result ← host.combine op current v
  let (_, scope) ← host.store target result scope
  let sign := Assignment.opSymbol a.op
  let operand ← host.describe v
  let described ← host.describe result
  host.record line .assignment
    (s!"{String.ofList a.target} {sign} " ++ operand ++ " → " ++ described) scope
  pure scope

/-- The values for several targets: as many expressions, all evaluated before anything is written,
or the items of one sequence of that length. -/
def unpacked (host : Host) (count : Nat) (value : List Char) (scope : Scope) :
    Run (List Value) := do
  if count = 1 then pure [← host.evaluateText scope value]
  else
    let sources := splitCommas value
    if sources.length = count then host.evaluateTexts scope sources
    else
      let packed ← host.evaluateText scope value
      match (← get).heap.sequence? packed with
      | some items =>
        pure (if items.length = count then items else List.replicate count .unknown)
      | none => pure (List.replicate count .unknown)

/-- Run an assignment. The result is nothing if its target cannot be assigned to. -/
def assign (host : Host) (line : Nat) (a : Assignment) (scope : Scope) : Run (Option Scope) := do
  match a.chain with
  | (first :: second :: more, value) => assignChain host line (first :: second :: more) value scope
  | _ =>
    match ← host.parseTargets (splitCommas a.target), a.op with
    | none, _ | some [], _ => pure none
    | some [target], some op => pure (some (← assignCombined host line target a op scope))
    | some _, some _ => pure none
    | some targets, none =>
      let values ← unpacked host targets.length a.value scope
      let scope ← host.storeEach (targets.zip values) scope
      let described ← host.describeAll values
      host.record line .assignment (s!"{String.ofList a.target} = " ++ described) scope
      pure (some scope)

/-- The text of the receiver in a method call. -/
def receiverText (text : List Char) (method : String) : List Char :=
  match lastIndexOf? ('.' :: method.toList) text with
  | some i => text.take i
  | none => text.dropLast

/-- A method call as a statement. Its arguments are evaluated first, each on its own. -/
def callMethod (host : Host) (line : Nat) (text : List Char) (receiver : Expr) (name : String)
    (args : List Expr) (scope : Scope) : Run Unit := do
  let values ← host.evaluateEach scope args
  let _ ← host.callMethod scope receiver name values
  let shown := String.ofList (receiverText text name)
  let described ← host.describeAll values
  host.record line .expression (s!"{shown}.{name}(" ++ described ++ ")") scope

/-- Run an expression for its effects. -/
def evaluateOnly (host : Host) (line : Nat) (text : List Char) (e : Option Expr) (scope : Scope) :
    Run Unit := do
  match e with
  | some (.method receiver name args) => callMethod host line text receiver name args scope
  | some e =>
    let _ ← host.evaluate scope e
    host.record line .expression s!"Evaluated: {String.ofList text}" scope
  | none => host.record line .expression s!"Evaluated: {String.ofList text}" scope

/-- Run a simple statement. -/
def simple (host : Host) (line : Nat) (text : List Char) (scope : Scope) : Run Scope := do
  match printArguments? text with
  | some args =>
    print host line args scope
    pure scope
  | none =>
    let e ← host.parse text
    let assigned ← match Assignment.split? text with
      | some a => assign host line a scope
      | none => pure none
    match assigned with
    | some scope => pure scope
    | none =>
      evaluateOnly host line text e scope
      pure scope

/-- Run a `return`. -/
def giveBack (host : Host) (line : Nat) (text : List Char) : Block := fun scope => do
  let v ← if text.isEmpty then pure .none else host.evaluateText scope text
  let described ← host.describe v
  host.record line .functionReturn ("Return " ++ described) scope
  pure { scope, returned := some v }

end Stepwise.Indented
