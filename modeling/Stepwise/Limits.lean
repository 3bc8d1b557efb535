import Stepwise.Number.Numeral
import Stepwise.Text.Quoted

/-!
# Limits

The safety limits of a run, and how an environment of variables sets them. A setting that is no
positive integer is ignored with a warning.
-/

namespace Stepwise

open Text

/-- How much a run may do. -/
structure Limits where
  maxSteps : Int := 500
  maxLoopIterations : Int := 200
  maxCallDepth : Int := 50
  maxCallsPerExpression : Int := 20
deriving DecidableEq, Inhabited

namespace Limits

/-- The variables that set a limit, each with the way to set it. -/
def settings : List (String × (Limits → Int → Limits)) :=
  [("TRACE_MAX_STEPS", fun l n => { l with maxSteps := n }),
   ("TRACE_MAX_LOOP_ITERATIONS", fun l n => { l with maxLoopIterations := n }),
   ("TRACE_MAX_CALL_DEPTH", fun l n => { l with maxCallDepth := n }),
   ("TRACE_MAX_CALLS_PER_EXPRESSION", fun l n => { l with maxCallsPerExpression := n })]

/-- The positive number that a setting gives, nothing for a blank one, or what is wrong with it. -/
def setting (raw : String) : Except String (Option Int) :=
  if (trim raw.toList).isEmpty then pure none
  else
    match Number.readInt raw.toList with
    | .ok n => if 0 < n then pure (some n) else throw "must be positive"
    | .error _ => throw "not an integer"

/-- The limits that an environment sets, and the warnings about ignored settings. -/
def ofEnvironment (env : List (String × String)) : Limits × List String :=
  settings.foldl
    (fun (limits, warnings) (name, put) =>
      match env.lookup name with
      | none => (limits, warnings)
      | some raw =>
        match setting raw with
        | .ok (some n) => (put limits n, warnings)
        | .ok none => (limits, warnings)
        | .error reason =>
          (limits, warnings ++ ["Ignoring " ++ name ++ "=" ++ quoteString raw ++ ": " ++ reason]))
    ({}, [])

end Limits

end Stepwise
