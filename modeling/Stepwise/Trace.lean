import Stepwise.Braced.Run
import Stepwise.Indented.Run

/-!
# Tracing a program

The trace of a program is the list of its recorded steps. A run that grows too long or too deep has
no trace, and its only event is the report of that.
-/

namespace Stepwise

open Source

/-- Run a program of a dialect. -/
def runProgram (dialect : Dialect) (limits : Limits) (p : Program) : Run Unit :=
  match dialect with
  | .indented => Indented.runProgram limits p
  | .braced => Braced.runProgram limits p

/-- What came of a run, and the warnings given in it. -/
structure Traced (α : Type) where
  result : Except Fault α
  warnings : List String

/-- The steps of the run of a source text. -/
def traceSteps (dialect : Dialect) (limits : Limits) (source : String) : Traced (List Step) :=
  let (result, m) := (runProgram dialect limits (layout dialect source.toList)).run.run {}
  ⟨result.map fun _ => m.recorder.steps, m.recorder.warnings⟩

/-- What a trace is made of. -/
inductive Event
  | step (s : Step)
  /-- The run was given up. -/
  | overrun (fault : Fault)

namespace Event

/-- The events of a run with this result. -/
def ofResult : Except Fault (List Step) → Except Fault (List Event)
  | .ok steps => .ok (steps.map step)
  | .error fault => if fault.isBudget then .ok [overrun fault] else .error fault

end Event

/-- The events of the run of a source text. -/
def traceEvents (dialect : Dialect) (limits : Limits) (source : String) : Traced (List Event) :=
  let traced := traceSteps dialect limits source
  ⟨Event.ofResult traced.result, traced.warnings⟩

/-- The events of the run of a source text with the limits that an environment sets. -/
def traceEventsIn (env : List (String × String)) (dialect : Dialect) (source : String) :
    Traced (List Event) :=
  let (limits, ignored) := Limits.ofEnvironment env
  let traced := traceEvents dialect limits source
  { traced with warnings := ignored ++ traced.warnings }

end Stepwise
