import Stepwise.Recorder.Basic

/-!
# Recorder scripts

A script drives a recorder by hand: it writes output, records steps, sets variables, asks whether a
loop may go on, and enters functions whose bodies are scripts again. Every operation is reported
with the state of the recorder after it. A fault inside a function body unwinds all calls around it.
-/

namespace Stepwise

namespace Script

/-- An operation of a script. -/
inductive Op
  | write (text ending : Text)
  /-- Record a step with these variables, or with the current ones. -/
  | record (line : Int) (kind : String) (explanation : Text)
      (scope : Option (List (String × Datum)))
  /-- Set a current variable. -/
  | assign (name : String) (value : Datum)
  | proceed (line iteration cost : Int)
  /-- Enter a function. Its body ends with a value, with none, or goes too deep. -/
  | invoke (function : String) (params : List String) (line : Int) (args : List Datum)
      (explanation : Text) (body : List Op) (returns : Option Datum) (tooDeep : Bool)

mutual

/-- What an operation answers. -/
inductive Reply
  | done
  | mayProceed (answer : Bool)
  | value (v : Value) (body : List Report)
  | fault (f : Fault)

/-- An answer and the state of the recorder after it. -/
inductive Report
  | mk (reply : Reply) (stepCount depth : Nat) (output : List Text)

end

/-- An answer with the state of the recorder. -/
def report (reply : Reply) (m : Machine) : Report :=
  .mk reply m.recorder.stepCount m.recorder.frames.length m.recorder.output

/-- The variables with these values, each value made anew. -/
def scopeOf : List (String × Datum) → Run Scope
  | [] => pure Table.empty
  | entries => do
    let values ← entries.mapM fun (name, d) => do pure (name, ← Run.onHeap (HeapM.ofDatum d))
    pure (Table.ofList values)

mutual

/-- Do an operation. It may change the current variables. -/
def Op.run (limits : Limits) (scope : Scope) : Op → Run (Reply × Scope)
  | .write text ending => do
    Record.write text ending
    pure (.done, scope)
  | .record line kind explanation entries => do
    let shown ← match entries with
      | some entries => scopeOf entries
      | none => pure scope
    Record.stepOf limits line (StepKind.ofName kind) explanation shown
    pure (.done, scope)
  | .assign name value => do
    let v ← Run.onHeap (HeapM.ofDatum value)
    pure (.done, scope.put name v)
  | .proceed line iteration cost => do
    pure (.mayProceed (← Record.continueLoop limits line iteration cost), scope)
  | .invoke function params line args explanation body returns tooDeep => do
    let values ← Run.onHeap (HeapM.ofData args)
    let (v, reports) ← Record.enter limits function params line values explanation fun inner => do
      let reports ← runAll limits body inner
      if tooDeep then throw .bottomless
      let v ← match returns with
        | some d => Run.onHeap (HeapM.ofDatum d)
        | none => pure .none
      pure (v, reports)
    pure (.value v reports, scope)

/-- Run the operations in order and report on each. -/
def runAll (limits : Limits) : List Op → Scope → Run (List Report)
  | [], _ => pure []
  | op :: rest, scope => do
    let (reply, scope) ← op.run limits scope
    let here := report reply (← get)
    pure (here :: (← runAll limits rest scope))

end

/-- Run the operations of a whole script. Here a fault is the answer of the operation, and the next
operation goes on from the state that is left. -/
def playFrom (limits : Limits) (scope : Scope) (m : Machine) : List Op → List Report × Machine
  | [] => ([], m)
  | op :: rest =>
    let (result, m) := (op.run limits scope).run.run m
    let (reply, scope) :=
      match result with
      | .ok answer => answer
      | .error f => (.fault f, scope)
    let (reports, last) := playFrom limits scope m rest
    (report reply m :: reports, last)

/-- The reports on a script and the machine after it. -/
def play (limits : Limits) (ops : List Op) : List Report × Machine :=
  playFrom limits Table.empty {} ops

end Script

end Stepwise
