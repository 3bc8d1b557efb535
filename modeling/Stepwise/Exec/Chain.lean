import Stepwise.Exec.Flow

/-!
# Branches

A chain of branches is found in the source first and then run. Of its bodies at most one runs: that
of the first guard that holds, or else the last one if it has no guard. Running a chain also gives
the line where the program goes on.
-/

namespace Stepwise

/-- A chain of branches whose bodies are of type `β`. -/
inductive Chain (β : Type)
  /-- A branch with a guard, the line where the program goes on after its body, and the branches to
  try if the guard does not hold. -/
  | guarded (line : Nat) (guard : List Char) (body : β) (resume : Thunk Nat) (rest : Chain β)
  /-- A last branch without a guard. -/
  | otherwise (body : β) (resume : Nat)
  /-- A branch whose guard cannot be made out. -/
  | malformed (line : Nat) (text : List Char)
  | done (resume : Nat)

namespace Chain

variable {β : Type}

/-- Run the first branch whose guard holds, and say where the program goes on. -/
def run (host : Host) (runBody : β → Block) (runMalformed : Nat → List Char → Block) :
    Chain β → Scope → Run (Nat × Flow)
  | guarded line guard body resume rest, scope => do
    let v ← host.evaluateText scope guard
    let shown := String.ofList guard
    if ← Run.isTrue v then
      host.record line .conditionTrue s!"{shown} → True" scope
      pure (resume.get, ← runBody body scope)
    else
      host.record line .conditionFalse s!"{shown} → False" scope
      rest.run host runBody runMalformed scope
  | otherwise body resume, scope => do pure (resume, ← runBody body scope)
  | malformed line text, scope => do pure (line + 1, ← runMalformed line text scope)
  | done resume, scope => pure (resume, { scope })

end Chain

end Stepwise
