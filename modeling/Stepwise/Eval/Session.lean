import Stepwise.Eval.Evaluate

/-!
# Evaluation sessions

A session evaluates expressions one by one with variables that last, and without a program around
them. Its functions are stubs: each returns the same value on every call. Every answer comes with
the variables, the output and the calls of stubs.
-/

namespace Stepwise

namespace Session

/-- A request of a session. -/
inductive Op
  | eval (text : String)
  | parse (text : String)
  | store (target : String) (value : Datum)
  | combine (op : String) (left right : Datum)

/-- What a request comes to. -/
inductive Reply
  | value (v : Datum)
  | tree (e : Option Expr)
  | stored (written : Bool)
  | fault (f : Fault)

/-- A call of a stub with the arguments as they were then. -/
structure Call where
  function : Text
  args : List Datum

/-- A reply with all that can be seen after it. -/
structure Report where
  reply : Reply
  scope : Table Datum
  output : List Text
  calls : List Call

/-- A value with the contents of its lists, unless one contains itself. -/
def viewOf (h : Heap) (v : Value) : Except Fault Datum :=
  match h.view? v with
  | some d => pure d
  | none => throw .bottomless

/-- Calls are kept as steps that show the arguments by position. -/
def noteCall (function : String) (args : List Value) : Run Unit := do
  let shown ← Run.fromHeap fun h => args.mapM (viewOf h)
  let entries := shown.mapIdx fun i d => (toString i, d)
  Run.modifyRecorder fun r =>
    { r with
      log :=
        { line := 0, kind := .functionCall, explanation := function, bindings := ⟨entries⟩
          callStack := [], output := r.output } :: r.log }

/-- The call that a step was kept for. -/
def callOf (s : Step) : Call := ⟨s.explanation, s.bindings.entries.map Prod.snd⟩

/-- Call a stub. -/
def callStub (stubs : List (String × Datum)) (name : String) (args : List Value) : Run Value := do
  match stubs.lookup name with
  | none => throw .undefined
  | some d =>
    noteCall name args
    Run.onHeap (HeapM.ofDatum d)

/-- A host whose functions are stubs. -/
def hostOf (dialect : Dialect) (limits : Limits) (stubs : List (String × Datum)) : Host :=
  { dialect, limits, call := callStub stubs }

def viewed (v : Value) : Run Reply := do
  pure (.value (← Run.fromHeap (viewOf · v)))

/-- Do what is requested. Storing may change the variables. -/
def Op.run (host : Host) (scope : Scope) : Op → Run (Reply × Scope)
  | .eval text => do
    let v ← host.evaluateText scope text.toList
    pure (← viewed v, scope)
  | .parse text => do pure (.tree (← host.parse text.toList), scope)
  | .store target value => do
    match ← host.parse target.toList with
    | none => pure (.stored false, scope)
    | some e =>
      let v ← Run.onHeap (HeapM.ofDatum value)
      let (written, scope) ← host.store e v scope
      pure (.stored written, scope)
  | .combine op left right => do
    let v ← Run.onHeap (HeapM.ofDatum left)
    let w ← Run.onHeap (HeapM.ofDatum right)
    pure (← viewed (← host.combineSymbol op v w), scope)

/-- The variables with their values; a list that contains itself is shown as unknown. -/
def viewScope (h : Heap) (scope : Scope) : Table Datum :=
  ⟨scope.entries.map fun (name, v) => (name, (h.view? v).getD .unknown)⟩

/-- Run the operations in order. A fault is the answer of its operation. -/
def playFrom (host : Host) (scope : Scope) (m : Machine) : List Op → List Report
  | [] => []
  | op :: rest =>
    let known := m.recorder.log.length
    let (result, m) := (op.run host scope).run.run m
    let (reply, scope) :=
      match result with
      | .ok answer => answer
      | .error f => (.fault f, scope)
    { reply, scope := viewScope m.heap scope, output := m.recorder.output
      calls := (m.recorder.steps.drop known).map callOf } :: playFrom host scope m rest

/-- The values that a session starts with. -/
def initialScope : List (String × Datum) → HeapM Scope
  | [] => pure Table.empty
  | entries => do
    let values ← entries.mapM fun (name, d) => do pure (name, ← HeapM.ofDatum d)
    pure (Table.ofList values)

/-- The reports of a session. -/
def play (dialect : Dialect) (limits : Limits) (stubs scope : List (String × Datum))
    (ops : List Op) : List Report :=
  let (result, heap) := (initialScope scope).run.run {}
  let scope := match result with
    | .ok scope => scope
    | .error _ => Table.empty
  playFrom (hostOf dialect limits stubs) scope { heap } ops

end Session

end Stepwise
