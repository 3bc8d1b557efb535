import Stepwise.Eval.Evaluate

/-!
# Flow of control

Statements change the variables and may return a value, which ends the call they belong to.
-/

namespace Stepwise

/-- What is left when statements have run. -/
structure Flow where
  scope : Scope
  /-- The value of a `return` that ended them. -/
  returned : Option Value := none

/-- Statements as a computation on the variables. -/
abbrev Block := Scope → Run Flow

namespace Flow

/-- Go on with what follows, unless a value was returned. -/
def andThen (flow : Flow) (next : Block) : Run Flow :=
  match flow.returned with
  | some _ => pure flow
  | none => next flow.scope

/-- Run several pieces one after the other until one returns. -/
def inTurn {α : Type} (run : α → Block) : List α → Block
  | [], scope => pure { scope }
  | piece :: rest, scope => do
    let flow ← run piece scope
    flow.andThen (inTurn run rest)

end Flow

/-- An expression that can be assigned to. -/
def Expr.isTarget : Expr → Bool
  | .var _ | .index _ _ => true
  | _ => false

namespace Host

/-- The targets that several texts denote, if all of them do. -/
def parseTargets (host : Host) (texts : List (List Char)) : Run (Option (List Expr)) := do
  let parsed ← texts.mapM host.parse
  match parsed.mapM id with
  | some targets => pure (if targets.all Expr.isTarget then some targets else none)
  | none => pure none

/-- The target that a text denotes, if it does. -/
def parseTarget (host : Host) (text : List Char) : Run (Option Expr) := do
  pure ((← host.parse text).filter Expr.isTarget)

/-- Write each value to its target, from left to right. -/
def storeEach (host : Host) : List (Expr × Value) → Scope → Run Scope
  | [], scope => pure scope
  | (target, v) :: rest, scope => do
    let (_, scope) ← host.store target v scope
    host.storeEach rest scope

end Host

end Stepwise
