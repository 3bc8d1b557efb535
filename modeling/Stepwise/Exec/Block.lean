import Stepwise.Exec.Flow
import Stepwise.Functions

/-!
# Blocks and calls

A block is a range of lines at one depth. It is run line by line; the dialect says how a line is run
and at which line the program goes on. A call runs the body of a function with variables of its own.
-/

namespace Stepwise

open Source Text

/-- The lines of the body. -/
def FunctionDef.body (f : FunctionDef) : Extent := ⟨f.bodyStart, f.bodyEnd, f.bodyDepth⟩

/-- How a line is run, given how the blocks inside it are run. -/
abbrev LineRunner := (Extent → Block) → Nat → Scope → Run (Nat × Flow)

/-- Run the lines of a block. Blank lines and lines that are too deep are passed over, and a line
that is not deep enough ends the block. Lines only lead forward, so the number of lines is fuel
enough. -/
def runBlock (p : Program) (runLine : LineRunner) : Nat → Extent → Block
  | 0, _, scope => pure { scope }
  | fuel + 1, extent, scope =>
    let i := p.nextStatement extent.start extent.depth
    if i < extent.stop ∧ extent.depth ≤ (p.line i).depth then do
      let (next, flow) ← runLine (runBlock p runLine fuel) i scope
      flow.andThen (runBlock p runLine fuel { extent with start := next })
    else pure { scope }

/-- A dialect's way to run a line of a program. -/
abbrev Semantics := Host → Program → LineRunner

/-- Enter a function of a program, with `body` in the place of its lines. -/
def enterFunction (dialect : Dialect) (functions : FunctionTable) (limits : Limits)
    (body : FunctionDef → Scope → Run Value) (name : String) (args : List Value) : Run Value :=
  match functions.get? name with
  | none => throw .undefined
  | some f => do
    let host : Host := { dialect, limits, call := fun _ _ => throw .undefined }
    let explanation := s!"Call {name}(" ++ (← host.describeAll args) ++ ")"
    Record.enter limits f.name f.params f.headerLine args explanation (body f)

/-- Call a function of a program. The first argument is how many calls may still nest. -/
def callFunction (dialect : Dialect) (semantics : Semantics) (p : Program)
    (functions : FunctionTable) (limits : Limits) : Nat → String → List Value → Run Value
  | 0 => enterFunction dialect functions limits fun f _ =>
      throw (.callDepth limits.maxCallDepth f.name)
  | room + 1 => enterFunction dialect functions limits fun f scope => do
      let call := callFunction dialect semantics p functions limits room
      let flow ← runBlock p (semantics { dialect, limits, call } p) p.size f.body scope
      pure (flow.returned.getD .none)

/-- What the expressions of a program are evaluated with. -/
def hostOf (dialect : Dialect) (semantics : Semantics) (p : Program) (limits : Limits) : Host :=
  { dialect, limits
    call := callFunction dialect semantics p (functionTable dialect p) limits
      limits.maxCallDepth.toNat }

end Stepwise
