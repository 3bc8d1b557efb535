import Stepwise.Braced.Body
import Stepwise.Braced.Statement
import Stepwise.Exec.Block
import Stepwise.Exec.Loop

/-!
# Running the braced dialect

The lines outside functions run first, and then the body of `main` with the same variables.
-/

namespace Stepwise.Braced

open Text Source

/-- Run a body, given how a block is run. -/
def runBody (host : Host) (runBlock : Extent → Block) : Body → Block
  | .lines extent => runBlock extent
  | .inline header texts => Flow.inTurn (statements host header) texts

/-- The three clauses of a `for` header, the whole header, and what follows it. -/
structure ForHeader where
  all : List Char
  init : List Char
  test : List Char
  step : List Char
  rest : List Char

/-- The header of a counting loop, if it has three clauses. -/
def forHeader? (text : List Char) : Option ForHeader := do
  let (all, rest) ← header? text
  match splitSemicolons all with
  | [init, test, step] => pure ⟨all, init, test, step, rest⟩
  | _ => none

/-- Run the last clause of a `for` header. It cannot return. -/
def advance (host : Host) (line : Nat) : List (List Char) → Scope → Run Scope
  | [], scope => pure scope
  | text :: rest, scope => do
    let flow ← statement host line text scope
    advance host line rest flow.scope

/-- Run a counting loop. An empty test counts as true. -/
def runFor (host : Host) (line : Nat) (header : ForHeader) (body : Block) : Block := fun scope => do
  let scope ←
    if header.init.isEmpty then pure scope
    else do pure (← statements host line header.init scope).scope
  host.record line .loopStart s!"For loop: {String.ofList header.all}" scope
  let guard := if header.test.isEmpty then ['1'] else header.test
  let iteration : Block := fun scope => do
    let flow ← body scope
    flow.andThen fun scope => do
      pure { scope := ← advance host line (splitCommas header.step) scope }
  Loop.run host line guard iteration scope

/-- What a line does, by its text. -/
inductive Shape
  | function (header : FunctionHeader)
  | branch
  /-- An `else` that no branch stands in front of. -/
  | strayElse
  | whileLoop (guard rest : List Char)
  | forLoop (header : ForHeader)
  | statements

/-- The shapes are tried in a fixed order. -/
def shape (text : List Char) : Shape :=
  if let some header := functionHeader? text then .function header
  else if isIf text then .branch
  else if isElse text then .strayElse
  else if isWhile text then
    match header? text with
    | some (guard, rest) => .whileLoop guard rest
    | none => .statements
  else if isFor text then
    match forHeader? text with
    | some header => .forLoop header
    | none => .statements
  else .statements

/-- Pass over a function. Only a definition other than that of `main` is recorded. -/
def define (host : Host) (p : Program) (i : Nat) (header : FunctionHeader) (scope : Scope) :
    Run Nat := do
  if header.terminator = some ';' then pure (i + 1)
  else
    if header.name ≠ "main" then
      host.record i .define s!"Define function {header.name}" scope
    pure (p.blockEnd (i + 1) ((p.line i).depth + 1))

/-- Run a line, and tell where the program goes on. -/
def runLine (host : Host) (p : Program) : LineRunner := fun runBlock i scope => do
  let text := (p.line i).text
  match shape text with
  | .function header => pure (← define host p i header scope, { scope })
  | .branch => (chainAt p i).run host (runBody host runBlock) (statements host) scope
  | .strayElse => pure ((bodyAt p i (afterElse text)).resume, { scope })
  | .whileLoop guard rest =>
    let body := bodyAt p i rest
    host.record i .loopStart s!"While loop: {String.ofList guard}" scope
    pure (body.resume, ← Loop.run host i guard (runBody host runBlock body) scope)
  | .forLoop header =>
    let body := bodyAt p i header.rest
    pure (body.resume, ← runFor host i header (runBody host runBlock body) scope)
  | .statements => pure (i + 1, ← statements host i text scope)

/-- Run a whole program. -/
def runProgram (limits : Limits) (p : Program) : Run Unit := do
  let host := hostOf .braced runLine p limits
  let run := runBlock p (runLine host p) p.size
  let flow ← run ⟨0, p.size, 0⟩ Table.empty
  match (functionTable .braced p).get? "main" with
  | some main => let _ ← flow.andThen (run main.body)
  | none => pure ()

end Stepwise.Braced
