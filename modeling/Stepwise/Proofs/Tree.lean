import Stepwise.Trace

/-!
# Program trees

Programs as trees, and what they do without any regard to how they are written: statements run one
after the other, of a chain of branches the first one whose guard holds runs, a compound statement
runs its body as often as its head says, and a call runs the body of the last definition of its
name. Lines only count for the steps that are recorded.

A `Grammar` says what the simple statements, guards and heads of a dialect are, how they are written
and what they do. It also says what rows a tree takes when it is written.
-/

namespace Stepwise

open Source

/-- A row of a written tree: its text, and what of the text is code. -/
structure Row where
  raw : List Char
  code : List Char

/-- A row that is code throughout. -/
def Row.plain (text : List Char) : Row := ⟨text, text⟩

/-- The parts of the trees of a dialect. -/
structure Grammar where
  dialect : Dialect
  Simple : Type
  Guard : Type
  /-- The head of a compound statement: a loop or a function. -/
  Head : Type
  /-- How much deeper a body is than its head. -/
  step : Nat
  rowOfSimple : Simple → Row
  rowOfIf : Guard → Row
  rowOfElseIf : Guard → Row
  rowOfElse : Row
  rowOfHead : Head → Row
  /-- The rows below the last body of a statement. -/
  closing : List Row
  textOfGuard : Guard → List Char
  runSimple : Host → Nat → Simple → Block
  /-- Run a compound statement on a line, given how its body is run. -/
  runHead : Host → Nat → Head → Block → Block
  /-- The name and the parameters of a function. -/
  function? : Head → Option (String × List String)

mutual

/-- A statement with all that belongs to it. -/
inductive Stmt (G : Grammar)
  | simple (s : G.Simple)
  | branch (guard : G.Guard) (body : Stmts G) (rest : Branches G)
  | compound (head : G.Head) (body : Stmts G)

/-- The branches after the first one. -/
inductive Branches (G : Grammar)
  | done
  | otherwise (body : Stmts G)
  | elseIf (guard : G.Guard) (body : Stmts G) (rest : Branches G)

/-- The statements of a body. -/
inductive Stmts (G : Grammar)
  | nil
  | cons (s : Stmt G) (rest : Stmts G)

end

variable {G : Grammar}

section Heights

mutual

/-- The number of rows of a statement. -/
def Stmt.height : Stmt G → Nat
  | .simple _ => 1
  | .branch _ body rest => 1 + body.height + rest.height
  | .compound _ body => 1 + body.height + G.closing.length

/-- The number of lines of branches with what closes them. -/
def Branches.height : Branches G → Nat
  | .done => G.closing.length
  | .otherwise body => 1 + body.height + G.closing.length
  | .elseIf _ body rest => 1 + body.height + rest.height

/-- The number of lines of a body. -/
def Stmts.height : Stmts G → Nat
  | .nil => 0
  | .cons s rest => s.height + rest.height

end

end Heights

section Running

/-- A branch on a line: its body if the guard holds, and the branches after it if not. -/
def runBranch (host : Host) (line : Nat) (guard : List Char) (body rest : Block) : Block :=
  fun scope => do
    let v ← host.evaluateText scope guard
    let shown := String.ofList guard
    if ← Run.isTrue v then
      host.record line .conditionTrue s!"{shown} → True" scope
      body scope
    else
      host.record line .conditionFalse s!"{shown} → False" scope
      rest scope

variable (host : Host)

mutual

/-- What a statement does that starts on a line. -/
def Stmt.run : Nat → Stmt G → Block
  | i, .simple s => G.runSimple host i s
  | i, .branch guard body rest =>
    runBranch host i (G.textOfGuard guard) (body.run (i + 1)) (rest.run (i + 1 + body.height))
  | i, .compound head body => G.runHead host i head (body.run (i + 1))

/-- Run the first of the branches from a line on whose guard holds. -/
def Branches.run : Nat → Branches G → Block
  | _, .done => fun scope => pure { scope }
  | i, .otherwise body => body.run (i + 1)
  | i, .elseIf guard body rest =>
    runBranch host i (G.textOfGuard guard) (body.run (i + 1)) (rest.run (i + 1 + body.height))

/-- Run the statements of a body from a line on, up to a return. -/
def Stmts.run : Nat → Stmts G → Block
  | _, .nil => fun scope => pure { scope }
  | i, .cons s rest => fun scope => do
    let flow ← s.run i scope
    flow.andThen (rest.run (i + s.height))

end

end Running

section Calls

/-- A function of a tree and the line of its head. -/
structure Definition (G : Grammar) where
  name : String
  params : List String
  line : Nat
  body : Stmts G

mutual

/-- The functions defined in a statement that starts on a line, from top to bottom. -/
def Stmt.functions : Nat → Stmt G → List (Definition G)
  | _, .simple _ => []
  | i, .branch _ body rest => body.functions (i + 1) ++ rest.functions (i + 1 + body.height)
  | i, .compound head body =>
    ((G.function? head).toList.map fun (name, params) => ⟨name, params, i, body⟩)
      ++ body.functions (i + 1)

/-- The functions defined in branches from a line on. -/
def Branches.functions : Nat → Branches G → List (Definition G)
  | _, .done => []
  | i, .otherwise body => body.functions (i + 1)
  | i, .elseIf _ body rest => body.functions (i + 1) ++ rest.functions (i + 1 + body.height)

/-- The functions defined in a body from a line on. -/
def Stmts.functions : Nat → Stmts G → List (Definition G)
  | _, .nil => []
  | i, .cons s rest => s.functions i ++ rest.functions (i + s.height)

end

/-- The last definition of a name. -/
def lastDefinition? (definitions : List (Definition G)) (name : String) : Option (Definition G) :=
  definitions.reverse.find? (·.name == name)

variable (limits : Limits) (definitions : List (Definition G))

/-- Enter a function of a tree, with `body` in the place of its statements. -/
def enterDefinition (body : Definition G → Scope → Run Value) (name : String) (args : List Value) :
    Run Value :=
  match lastDefinition? definitions name with
  | none => throw .undefined
  | some f => do
    let host : Host := { dialect := G.dialect, limits, call := fun _ _ => throw .undefined }
    let explanation := s!"Call {name}(" ++ (← host.describeAll args) ++ ")"
    Record.enter limits f.name f.params f.line args explanation (body f)

/-- Call a function of a tree. The first argument is how many calls may still nest. -/
def callDefinition : Nat → String → List Value → Run Value
  | 0 => enterDefinition limits definitions fun f _ =>
      throw (.callDepth limits.maxCallDepth f.name)
  | room + 1 => enterDefinition limits definitions fun f scope => do
      let call := callDefinition room
      let flow ← f.body.run { dialect := G.dialect, limits, call } (f.line + 1) scope
      pure (flow.returned.getD .none)

/-- What the expressions of a tree are evaluated with. -/
def Stmts.host (t : Stmts G) : Host :=
  { dialect := G.dialect, limits
    call := callDefinition limits (t.functions 0) limits.maxCallDepth.toNat }

end Calls

section Writing

mutual

/-- The rows of a statement with their depths, if it stands at depth `d` itself. -/
def Stmt.rows : Nat → Stmt G → List (Nat × Row)
  | d, .simple s => [(d, G.rowOfSimple s)]
  | d, .branch guard body rest => (d, G.rowOfIf guard) :: (body.rows (d + G.step) ++ rest.rows d)
  | d, .compound head body =>
    (d, G.rowOfHead head) :: (body.rows (d + G.step) ++ G.closing.map (d, ·))

/-- The rows of branches with what closes them. -/
def Branches.rows : Nat → Branches G → List (Nat × Row)
  | d, .done => G.closing.map (d, ·)
  | d, .otherwise body => (d, G.rowOfElse) :: (body.rows (d + G.step) ++ G.closing.map (d, ·))
  | d, .elseIf guard body rest =>
    (d, G.rowOfElseIf guard) :: (body.rows (d + G.step) ++ rest.rows d)

/-- The rows of a body. -/
def Stmts.rows : Nat → Stmts G → List (Nat × Row)
  | _, .nil => []
  | d, .cons s rest => s.rows d ++ rest.rows d

end

end Writing

/-- The steps of a run from the initial state, and the warnings given in it. -/
def Run.traced (x : Run Unit) : Traced (List Step) :=
  let (result, m) := x.run.run {}
  ⟨result.map fun _ => m.recorder.steps, m.recorder.warnings⟩

end Stepwise
