import Stepwise.Braced.Header
import Stepwise.Exec.Flow
import Stepwise.Source.Assignment

/-!
# Simple statements of the braced dialect

Declarations, assignments, increments, output, returns and other expressions, each recorded as one
step. A variable keeps the kind of number it was declared with.
-/

namespace Stepwise.Braced

open Text Source Number

/-- A number as the declared kind of number. What is no number stays as it is, and so does a float
without an integer part where an integer is declared. -/
def coerce (isFloat : Bool) (v : Value) : Except Fault Value := do
  match v with
  | .int n =>
    let x ← intToFloat n
    pure (if isFloat then .float x else v)
  | .float x =>
    if isFloat then pure v
    else
      match Dyadic.ofFloat? x with
      | some d => pure (.int d.truncate)
      | none => pure v
  | v => pure v

/-- A number as the kind of number that it replaces. -/
def keepKind (current v : Value) : Except Fault Value :=
  match current, v with
  | .int _, .float _ => coerce false v
  | .float _, .int n | .nan _, .int n => do pure (.float (← intToFloat n))
  | _, v => pure v

/-- The value of what is not given one. -/
def zero (isFloat : Bool) : Value := if isFloat then .float 0 else .int 0

/-- The inside of a text in braces. -/
def inBraces? : List Char → Option (List Char)
  | '\x7b' :: rest => if rest.getLast? == some '\x7d' then some rest.dropLast else none
  | _ => none

/-- The coerced values of the items of an array. -/
def itemValues (host : Host) (isFloat : Bool) (scope : Scope) : List (List Char) → Run (List Value)
  | [] => pure []
  | item :: rest => do
    let v ← ofExcept (coerce isFloat (← host.evaluateText scope item))
    pure (v :: (← itemValues host isFloat scope rest))

/-- The size that a value gives an array. -/
def arraySize? (v : Value) : Option Nat :=
  match v.int? with
  | some n => if 0 ≤ n ∧ n ≤ maxSequenceLength then some n.toNat else none
  | none => none

/-- The first value of an array: its items, filled up to its size, or any expression. -/
def arrayValue (host : Host) (size : List Char) (init : Option (List Char)) (isFloat : Bool)
    (scope : Scope) : Run Value := do
  let size ← host.evaluateText scope size
  match init with
  | some init =>
    match inBraces? (trim init) with
    | some inner =>
      let texts := (splitCommas inner).filter fun t => !t.isEmpty
      let items ← itemValues host isFloat scope texts
      let missing := (arraySize? size).getD 0 - items.length
      Run.onHeap (HeapM.newList (items ++ List.replicate missing (zero isFloat)))
    | none => host.evaluateText scope init
  | none =>
    match arraySize? size with
    | some n => Run.onHeap (HeapM.newList (List.replicate n (zero isFloat)))
    | none => pure .unknown

/-- The value of a variable when it is declared, zero if none is given. -/
def initialValue (host : Host) (isFloat : Bool) (d : Declarator) (scope : Scope) : Run Value := do
  match d.size, d.init with
  | some size, init => arrayValue host size init isFloat scope
  | none, some init => do ofExcept (coerce isFloat (← host.evaluateText scope init))
  | none, none => pure (zero isFloat)

/-- Declare names one after the other. The texts describe them. -/
def declareEach (host : Host) (isFloat : Bool) :
    List Declarator → Scope → Run (List Text × Scope)
  | [], scope => pure ([], scope)
  | d :: rest, scope => do
    let v ← initialValue host isFloat d scope
    let described ← host.describe v
    let (texts, scope) ← declareEach host isFloat rest (scope.put d.name v)
    pure ((s!"{d.name} = " ++ described) :: texts, scope)

/-- Run a declaration. The result is nothing if a declarator cannot be read. -/
def declare (host : Host) (line : Nat) (d : Declaration) (scope : Scope) : Run (Option Scope) := do
  match (splitCommas d.declarators).mapM declarator? with
  | none | some [] => pure none
  | some declarators =>
    let (texts, scope) ← declareEach host d.isFloat declarators scope
    host.record line .assignment (joined ", " texts) scope
    pure (some scope)

/-- The operator that makes the change. -/
def Change.op : Change → BinaryOp
  | .up => .add
  | .down => .sub

/-- Run an increment or decrement, shown with its target. The result is nothing if the target
cannot be assigned to. -/
def increment (host : Host) (line : Nat) (target : List Char) (change : Change) (shown : String)
    (scope : Scope) : Run (Option Scope) := do
  match ← host.parseTarget target with
  | none => pure none
  | some e =>
    let current ← host.evaluate scope e
    let result ← host.combine change.op current (.int 1)
    let (_, scope) ← host.store e result scope
    let described ← host.describe result
    host.record line .assignment (s!"{shown} → " ++ described) scope
    pure (some scope)

/-- The value that an assignment replaces. A variable without a value has none. -/
def currentValue (host : Host) (target : Expr) (scope : Scope) : Run Value :=
  match target with
  | .var name => pure ((scope.get? name).getD .none)
  | target => host.evaluate scope target

/-- Write a value to several targets. Each hands on the value as it keeps it. -/
def storeChain (host : Host) : List Expr → Value → Scope → Run (Value × Scope)
  | [], v, scope => pure (v, scope)
  | target :: rest, v, scope => do
    let current ← currentValue host target scope
    let v ← ofExcept (keepKind current v)
    let (_, scope) ← host.store target v scope
    storeChain host rest v scope

/-- One value for every target of a chain, from right to left. -/
def assignChain (host : Host) (line : Nat) (chain : List (List Char)) (value : List Char)
    (scope : Scope) : Run (Option Scope) := do
  match ← host.parseTargets chain with
  | none => pure none
  | some targets =>
    let v ← host.evaluateText scope value
    let (v, scope) ← storeChain host targets.reverse v scope
    let shown := joinWith " = " (chain.map String.ofList)
    let described ← host.describe v
    host.record line .assignment (s!"{shown} = " ++ described) scope
    pure (some scope)

/-- An assignment to one target. -/
def assignOne (host : Host) (line : Nat) (target : Expr) (a : Assignment) (scope : Scope) :
    Run Scope := do
  let shown := String.ofList a.target
  let v ← host.evaluateText scope a.value
  let current ← currentValue host target scope
  let (result, explanation) : Value × Text ← match a.op with
    | none => do
      let result ← ofExcept (keepKind current v)
      let described ← host.describe result
      pure (result, s!"{shown} = " ++ described)
    | some op => do
      let result ← ofExcept (keepKind current (← host.combine op current v))
      let operand ← host.describe v
      let described ← host.describe result
      let sign := Assignment.opSymbol a.op
      pure (result, s!"{shown} {sign} " ++ operand ++ " → " ++ described)
  let (_, scope) ← host.store target result scope
  host.record line .assignment explanation scope
  pure scope

/-- Run an assignment. The result is nothing if the dialect does not have it. -/
def assign (host : Host) (line : Nat) (a : Assignment) (scope : Scope) : Run (Option Scope) := do
  if a.op = some .floorDiv ∨ a.op = some .pow then pure none
  else
    match a.chain with
    | (first :: second :: more, value) =>
      assignChain host line (first :: second :: more) value scope
    | _ =>
      match ← host.parseTarget a.target with
      | some target => pure (some (← assignOne host line target a scope))
      | none => pure none

/-- What an output statement writes. -/
def outputText (function : String) (args : List Value) (h : Heap) : Except Fault Text :=
  match args with
  | [] => pure ""
  | first :: rest => if function = "printf" then Printf.format h first rest else display h first

/-- Run an output statement. -/
def output (host : Host) (line : Nat) (function : String) (args : List Expr) (scope : Scope) :
    Run Unit := do
  let values ← host.evaluateEach scope args
  let out ← Run.fromHeap (outputText function values)
  Record.write out
  host.record line .print ("Output: " ++ out) scope

/-- The name and the arguments of an output statement. -/
def outputCall? : Option Expr → Option (String × List Expr)
  | some (.call name args) =>
    if name = "printf" ∨ name = "puts" then some (name, args) else none
  | _ => none

/-- Run a `return`. -/
def giveBack (host : Host) (line : Nat) (text : List Char) : Block := fun scope => do
  let v ← if text.isEmpty then pure .none else host.evaluateText scope text
  let described ← host.describe v
  host.record line .functionReturn ("Return " ++ described) scope
  pure { scope, returned := some v }

/-- The ways to read a statement that changes variables, in the order they are tried. -/
def changes (host : Host) (line : Nat) (text : List Char) : List (Scope → Run (Option Scope)) :=
  let shown := String.ofList
  [ fun scope =>
      match declaration? text with
      | some d => declare host line d scope
      | none => pure none,
    fun scope =>
      match preIncrement? text with
      | some (change, target) =>
        increment host line target change (change.symbol ++ shown target) scope
      | none => pure none,
    fun scope =>
      match postIncrement? text with
      | some (target, change) =>
        increment host line target change (shown target ++ change.symbol) scope
      | none => pure none,
    fun scope =>
      match Assignment.split? text with
      | some a => assign host line a scope
      | none => pure none ]

/-- The first of several readings that fits. -/
def firstFit : List (Scope → Run (Option Scope)) → Scope → Run (Option Scope)
  | [], _ => pure none
  | reading :: rest, scope => do
    match ← reading scope with
    | some scope => pure (some scope)
    | none => firstFit rest scope

/-- Run one statement. -/
def statement (host : Host) (line : Nat) (text : List Char) : Block := fun scope => do
  match returnText? text with
  | some value => giveBack host line value scope
  | none =>
    let e ← host.parse text
    match outputCall? e with
    | some (function, args) =>
      output host line function args scope
      pure { scope }
    | none =>
      match ← firstFit (changes host line text) scope with
      | some scope => pure { scope }
      | none =>
        if let some e := e then
          let _ ← host.evaluate scope e
        host.record line .expression s!"Evaluated: {String.ofList text}" scope
        pure { scope }

/-- The text without blanks around it, then without opening braces in front and closing braces
behind. -/
def withoutBraces (text : List Char) : List Char :=
  (((trim text).dropWhile (· == '\x7b')).reverse.dropWhile (· == '\x7d')).reverse

/-- Run the statements of a line. -/
def statements (host : Host) (line : Nat) (text : List Char) : Block :=
  let texts := (splitSemicolons (withoutBraces text)).filter fun s => !s.isEmpty
  Flow.inTurn (statement host line) texts

end Stepwise.Braced
