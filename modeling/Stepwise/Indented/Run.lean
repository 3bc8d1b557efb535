import Stepwise.Exec.Block
import Stepwise.Exec.Chain
import Stepwise.Exec.Loop
import Stepwise.Indented.Statement

/-!
# Running the indented dialect

What a line of the indented dialect does is told by its shape. The body of a compound statement is
the block of deeper lines below it.
-/

namespace Stepwise.Indented

open Text Source

/-- What a line does, by its text. -/
inductive Shape
  | define (name : String)
  | branch
  /-- An `else` that no branch stands in front of. -/
  | strayElse
  | whileLoop (guard : List Char)
  | forLoop (name : String) (items : List Char)
  | giveBack (value : List Char)
  | simple

/-- The shapes are tried in a fixed order. -/
def shape (text : List Char) : Shape :=
  if let some (name, _) := definition? text then .define name
  else if (branchGuard? text).isSome then .branch
  else if isElse text then .strayElse
  else if let some guard := whileGuard? text then .whileLoop guard
  else if let some (name, items) := forParts? text then .forLoop name items
  else if let some value := returnText? text then .giveBack value
  else .simple

/-- The code line at or after an index, if it has the given depth. -/
def codeLineAt? (p : Program) (depth start : Nat) : Option Nat :=
  let i := p.nextCodeLine start
  if i < p.size ∧ (p.line i).depth = depth then some i else none

/-- The first code line after the `elif` and `else` branches from an index on. The fuel bounds the
number of branches. -/
def skipBranches (p : Program) (depth : Nat) : Nat → Nat → Nat
  | 0, start => p.nextCodeLine start
  | fuel + 1, start =>
    match codeLineAt? p depth start with
    | some i =>
      if isElif (p.line i).text || isElse (p.line i).text then
        skipBranches p depth fuel (p.body i).stop
      else i
    | none => p.nextCodeLine start

/-- The chain of branches at a line. The fuel bounds the number of branches. -/
def chainFrom (p : Program) (depth : Nat) : Nat → Nat → Chain Extent
  | 0, i => .done i
  | fuel + 1, i =>
    match branchGuard? (p.line i).text with
    | none => .malformed i (p.line i).text
    | some guard =>
      let body := p.body i
      .guarded i guard body (skipBranches p depth p.size body.stop)
        (match codeLineAt? p depth body.stop with
        | some j =>
          if isElif (p.line j).text then chainFrom p depth fuel j
          else if isElse (p.line j).text then .otherwise (p.body j) (p.body j).stop
          else .done body.stop
        | none => .done body.stop)

/-- The chain of branches that starts at a line. -/
def chainAt (p : Program) (i : Nat) : Chain Extent :=
  chainFrom p (p.line i).depth p.size i

/-- Run a line, and tell where the program goes on. -/
def runLine (host : Host) (p : Program) : LineRunner := fun runBody i scope => do
  let text := (p.line i).text
  let body := p.body i
  match shape text with
  | .define name =>
    host.record i .define s!"Define function {name}" scope
    pure (body.stop, { scope })
  | .branch => (chainAt p i).run host runBody (fun _ _ _ => throw .brokenBranch) scope
  | .strayElse => pure (body.stop, { scope })
  | .whileLoop guard =>
    host.record i .loopStart s!"While loop: {String.ofList guard}" scope
    pure (body.stop, ← Loop.run host i guard (runBody body) scope)
  | .forLoop name items =>
    let source ← host.evaluateText scope items
    host.record i .loopStart s!"For loop: {name} in {String.ofList items}" scope
    let items := ((← get).heap.sequence? source).getD []
    pure (body.stop, ← Loop.forEach host i name (runBody body) items 0 1 scope)
  | .giveBack value => pure (i + 1, ← giveBack host i value scope)
  | .simple => pure (i + 1, { scope := ← simple host i text scope })

/-- Run a whole program. -/
def runProgram (limits : Limits) (p : Program) : Run Unit := do
  let host := hostOf .indented runLine p limits
  let first := p.nextCodeLine 0
  let _ ← runBlock p (runLine host p) p.size ⟨first, p.size, (p.line first).depth⟩ Table.empty

end Stepwise.Indented
