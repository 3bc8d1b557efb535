import Stepwise.Limits
import Stepwise.Value.Heap

/-!
# Recording a run

A run is recorded as a list of steps. Each step shows the line, what happened there, the variables,
the calls under way and the output so far. The recorder counts the steps against the limits, also
those it then cannot record.
-/

namespace Stepwise

inductive StepKind
  | assignment | print | conditionTrue | conditionFalse | loopStart | loopCheck
  | functionCall | functionReturn | expression | define
deriving DecidableEq, Repr, Inhabited

namespace StepKind

/-- The name of a kind in the record. -/
def name : StepKind → String
  | assignment => "assignment"
  | print => "print"
  | conditionTrue => "condition_true"
  | conditionFalse => "condition_false"
  | loopStart => "loop_start"
  | loopCheck => "loop_check"
  | functionCall => "function_call"
  | functionReturn => "function_return"
  | expression => "expression"
  | define => "define"

def all : List StepKind :=
  [assignment, print, conditionTrue, conditionFalse, loopStart, loopCheck, functionCall,
   functionReturn, expression, define]

/-- The kind with a name. -/
def ofName (name : String) : Except Fault StepKind :=
  match all.find? (·.name == name) with
  | some kind => pure kind
  | none => throw (.unknownKind name)

end StepKind

/-- A call under way: the function and its arguments when it was entered. -/
structure Frame where
  function : String
  args : Table Datum
deriving Inhabited

/-- A step: where the run stands, what happened there, and all that can be seen then. -/
structure Step where
  line : Int
  kind : StepKind
  explanation : Text
  /-- The variables with their values. -/
  bindings : Table Datum
  /-- The calls under way, outermost first. -/
  callStack : List Frame
  output : List Text
deriving Inhabited

/-- Why a loop was ended before its guard was false. Lines count from one. -/
inductive Warning
  | iterationCap (line iterations : Int)
  | stepReserve (line iterations used limit : Int)
deriving DecidableEq

def Warning.message : Warning → String
  | iterationCap line iterations => s!"Loop on line {line} stopped after {iterations} iterations"
  | stepReserve line iterations used limit =>
    s!"Loop on line {line} stopped after {iterations} iterations, {used} of {limit} steps used"

/-- All that a run has recorded so far. -/
structure Recorder where
  /-- The steps, newest first. -/
  log : List Step := []
  stepCount : Nat := 0
  /-- The output entries, newest first. -/
  entries : List Text := []
  /-- The next output continues the newest entry. -/
  entryOpen : Bool := false
  /-- The calls under way, innermost first. -/
  frames : List Frame := []
  /-- The warnings, newest first. -/
  warned : List Warning := []
deriving Inhabited

namespace Recorder

/-- The steps, oldest first. -/
def steps (r : Recorder) : List Step := r.log.reverse

/-- The output entries, oldest first. -/
def output (r : Recorder) : List Text := r.entries.reverse

/-- The texts of the warnings, oldest first. -/
def warnings (r : Recorder) : List String := r.warned.reverse.map Warning.message

/-- Add text to the output. An ending other than a line feed leaves the entry open. -/
def write (r : Recorder) (text ending : Text) : Recorder :=
  let closes := ending.getLast? == some (↑ '\n')
  let added := text ++ if closes then ending.dropLast else ending
  let entries :=
    match r.entryOpen, r.entries with
    | true, newest :: older => (newest ++ added) :: older
    | _, entries => added :: entries
  { r with entries, entryOpen := !closes }

end Recorder

/-- The state of a run. -/
structure Machine where
  heap : Heap := {}
  recorder : Recorder := {}
deriving Inhabited

/-- Computations of a run. A fault keeps what was done before it. -/
abbrev Run (α : Type) := ExceptT Fault (StateM Machine) α

namespace Run

variable {α : Type}

/-- A computation on the heap. -/
def onHeap (act : HeapM α) : Run α := do
  let m ← get
  let (result, heap) := act.run.run m.heap
  set { m with heap }
  ofExcept result

/-- Something read off the heap. -/
def fromHeap (read : Heap → Except Fault α) : Run α := do
  ofExcept (read (← get).heap)

/-- Does a value count as true? -/
def isTrue (v : Value) : Run Bool := do
  pure ((← get).heap.isTrue v)

/-- Change what has been recorded. -/
def modifyRecorder (f : Recorder → Recorder) : Run Unit :=
  modify fun m => { m with recorder := f m.recorder }

/-- How many steps have been counted. -/
def stepCount : Run Nat := do
  pure (← get).recorder.stepCount

/-- Give the unknown value in place of a fault of an expression. -/
def recover (act : Run Value) : Run Value :=
  tryCatch act fun fault => if fault.isRecoverable then pure .unknown else throw fault

end Run

namespace Record

open Run

/-- Add text to the output. -/
def write (text : Text) (ending : Text := "\n") : Run Unit :=
  modifyRecorder (·.write text ending)

/-- Count a step, and record it if the budget allows and everything can be shown. -/
def stepOf (limits : Limits) (line : Int) (kind : Except Fault StepKind) (explanation : Text)
    (scope : Scope) : Run Unit := do
  modifyRecorder fun r => { r with stepCount := r.stepCount + 1 }
  if limits.maxSteps < (← stepCount) then throw (.stepBudget limits.maxSteps)
  let bindings ← fromHeap (·.snapshotScope scope)
  let kind ← ofExcept kind
  modifyRecorder fun r =>
    { r with
      log :=
        { line, kind, explanation, bindings
          callStack := r.frames.reverse, output := r.output } :: r.log }

/-- Record a step of a known kind. -/
def step (limits : Limits) (line : Int) (kind : StepKind) (explanation : Text) (scope : Scope) :
    Run Unit :=
  stepOf limits line (.ok kind) explanation scope

/-- Whether a loop may begin another iteration, when the one before recorded `cost` steps. It may
not at the iteration cap, nor if another such iteration would use up the step budget. -/
def continueLoop (limits : Limits) (line iteration cost : Int) : Run Bool := do
  let used : Int := ← stepCount
  if limits.maxLoopIterations ≤ iteration then
    modifyRecorder fun r => { r with warned := .iterationCap (line + 1) iteration :: r.warned }
    pure false
  else if limits.maxSteps - used ≤ cost then
    modifyRecorder fun r =>
      { r with warned := .stepReserve (line + 1) iteration used limits.maxSteps :: r.warned }
    pure false
  else pure true

/-- The variables of a call: every parameter with its argument, none where arguments are missing. -/
def bindParams (params : List String) (args : List Value) : Scope :=
  Table.ofList (params.mapIdx fun i name => (name, args.getD i .none))

/-- Leave the innermost call. -/
def popFrame : Run Unit :=
  modifyRecorder fun r => { r with frames := r.frames.tail }

/-- Do `body` with the variables of a call, one frame deeper. A list that contains itself is
reported as a call that went too deep. -/
def enter {α : Type} (limits : Limits) (function : String) (params : List String) (line : Int)
    (args : List Value) (explanation : Text) (body : Scope → Run α) : Run α := do
  if limits.maxCallDepth ≤ (← get).recorder.frames.length then
    throw (.callDepth limits.maxCallDepth function)
  let scope := bindParams params args
  let shown ← fromHeap (·.snapshotScope scope)
  modifyRecorder fun r => { r with frames := ⟨function, shown⟩ :: r.frames }
  let result ← tryCatch
    (do
      step limits line .functionCall explanation scope
      body scope)
    fun fault => do
      let depth := (← get).recorder.frames.length
      popFrame
      throw (if fault = .bottomless then .nestedCalls depth function else fault)
  popFrame
  pure result

end Record

end Stepwise
