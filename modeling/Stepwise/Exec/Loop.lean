import Stepwise.Exec.Flow

/-!
# Loops

A loop asks the recorder before every iteration whether it may go on. The cost of an iteration is
the number of steps it recorded, and the first one is taken to cost one step.
-/

namespace Stepwise

namespace Loop

open Run

/-- Repeat the body while the guard holds. The first argument is how many iterations may still
come. -/
def whileTrue (host : Host) (line : Nat) (guard : List Char) (body : Block) :
    Nat → Nat → Nat → Block
  | 0, iteration, cost, scope => do
    let _ ← Record.continueLoop host.limits line iteration cost
    pure { scope }
  | more + 1, iteration, cost, scope => do
    if ← Record.continueLoop host.limits line iteration cost then
      let v ← host.evaluateText scope guard
      let shown := String.ofList guard
      if ← isTrue v then
        let before ← stepCount
        host.record line .loopCheck s!"{shown} → True (iteration {iteration + 1})" scope
        let flow ← body scope
        let cost := (← stepCount) - before
        flow.andThen (whileTrue host line guard body more (iteration + 1) cost)
      else
        host.record line .conditionFalse s!"{shown} → False, loop ended" scope
        pure { scope }
    else pure { scope }

/-- Repeat the body while the guard holds, from the first iteration on. -/
def run (host : Host) (line : Nat) (guard : List Char) (body : Block) : Block :=
  whileTrue host line guard body host.limits.maxLoopIterations.toNat 0 1

/-- Do the body once for every item, which is bound to a variable. -/
def forEach (host : Host) (line : Nat) (name : String) (body : Block) :
    List Value → Nat → Nat → Block
  | [], _, _, scope => pure { scope }
  | item :: items, iteration, cost, scope => do
    if ← Record.continueLoop host.limits line iteration cost then
      let scope := scope.put name item
      let before ← stepCount
      let shown ← host.describe item
      host.record line .loopCheck
        (s!"{name} = " ++ shown ++ s!" (iteration {iteration + 1})") scope
      let flow ← body scope
      let cost := (← stepCount) - before
      flow.andThen (forEach host line name body items (iteration + 1) cost)
    else pure { scope }

end Loop

end Stepwise
