import Stepwise.Proofs.Unrolling

/-!
# Every run ends

A line hands back a later line, what is looked for in the source is found within its length, an
expression is evaluated in as many steps as it is large, and iterations and calls run their bodies
only after a step has been recorded. So a run ends after a number of layers that is known
beforehand, for any source text and any limits (`every_run_ends`).
-/

namespace Stepwise

open Source Text Run

variable {α β : Type}

section Expressions

mutual

/-- The number of nodes of an expression. -/
def Expr.size : Expr → Nat
  | .lit _ => 1
  | .var _ => 1
  | .list items => Expr.sizes items + 1
  | .unary _ operand => operand.size + 1
  | .binary _ left right => left.size + right.size + 1
  | .index target position => target.size + position.size + 1
  | .call _ args => Expr.sizes args + 1
  | .method receiver _ args => receiver.size + Expr.sizes args + 1

/-- The number of nodes of several expressions. -/
def Expr.sizes : List Expr → Nat
  | [] => 0
  | e :: rest => e.size + Expr.sizes rest

end

namespace Eval

/-- The values of several expressions, given how one is evaluated. -/
def evalAllBy (eval : Expr → EvalM Value) : List Expr → EvalM (List Value)
  | [] => pure []
  | e :: rest => do
    let v ← eval e
    pure (v :: (← evalAllBy eval rest))

/-- One step of the evaluation of an expression. -/
def evalStep (host : Host) (scope : Scope) (eval : Expr → EvalM Value) : Expr → EvalM Value
  | .lit l => pure (ofLiteral l)
  | .var name => lookup scope name
  | .list items => do
    let values ← evalAllBy eval items
    onHeap (HeapM.newList values)
  | .unary op operand => do
    let v ← eval operand
    onHeap (Operator.applyUnary op v)
  | .binary op left right => do
    let v ← eval left
    match op with
    | .and => if ← isTrue v then eval right else pure v
    | .or => if ← isTrue v then pure v else eval right
    | .logicalAnd =>
      if ← isTrue v then
        let w ← eval right
        pure (Operator.truth .braced (← isTrue w))
      else pure (.int 0)
    | .logicalOr =>
      if ← isTrue v then pure (.int 1)
      else
        let w ← eval right
        pure (Operator.truth .braced (← isTrue w))
    | op => do
      let w ← eval right
      onHeap (Operator.apply host.dialect op v w)
  | .index target position => do
    let v ← eval target
    let i ← eval position
    fromHeap fun h => Operator.item host.dialect h v i
  | .call name args => do
    spendCall
    let values ← evalAllBy eval args
    callNamed host name values
  | .method receiver name args => do
    let v ← eval receiver
    let values ← evalAllBy eval args
    onHeap (Method.call v name values)

variable {host : Host} {scope : Scope} {f : Expr → EvalM Value}

theorem evalAllBy_eq : ∀ {es : List Expr},
    (∀ e, e.size ≤ Expr.sizes es → f e = eval host scope e) →
      evalAllBy f es = evalAll host scope es
  | [], _ => by rw [evalAllBy, evalAll]
  | e :: rest, h => by
    have hs : Expr.sizes (e :: rest) = e.size + Expr.sizes rest := by rw [Expr.sizes]
    rw [evalAllBy, evalAll, h e (by omega), evalAllBy_eq fun d hd => h d (by omega)]

/-- One step of evaluation gives the value if the operands have theirs. -/
theorem evalStep_eq {e : Expr} (h : ∀ d, d.size < e.size → f d = eval host scope d) :
    evalStep host scope f e = eval host scope e := by
  cases e with
  | lit l => rw [evalStep, eval]
  | var name => rw [evalStep, eval]
  | list items =>
    rw [Expr.size] at h
    rw [evalStep, eval, evalAllBy_eq fun d hd => h d (by omega)]
  | unary op operand =>
    rw [Expr.size] at h
    rw [evalStep, eval, h operand (by omega)]
  | binary op left right =>
    rw [Expr.size] at h
    have hl := h left (by omega)
    have hr := h right (by omega)
    cases op <;> rw [evalStep, eval, hl, hr]
  | index target position =>
    rw [Expr.size] at h
    rw [evalStep, eval, h target (by omega), h position (by omega)]
  | call name args =>
    rw [Expr.size] at h
    rw [evalStep, eval, evalAllBy_eq fun d hd => h d (by omega)]
  | method receiver name args =>
    rw [Expr.size] at h
    rw [evalStep, eval, h receiver (by omega), evalAllBy_eq fun d hd => h d (by omega)]

theorem size_pos (e : Expr) : 0 < e.size := by
  cases e <;> rw [Expr.size] <;> omega

theorem eval_settles (host : Host) (scope : Scope) :
    Settles (evalStep host scope) (fun _ => True) Expr.size (eval host scope) := by
  intro bottom n
  induction n with
  | zero =>
    intro e _ hn
    have := size_pos e
    omega
  | succ n ih =>
    intro e _ hn
    rw [Function.iterate_succ_apply']
    exact evalStep_eq fun d hd => ih d trivial (by omega)

end Eval

end Expressions

section Steps

/-- A computation that keeps the steps and the calls under way. -/
def Keeps (x : Run α) : Prop := ∀ m : Machine, m.Follows (x.outcome m).2

theorem Keeps.of_quiet {x : Run α} (h : Quiet x) : Keeps x := Machine.Follows.of_quiet h

theorem Keeps.follows {x : Run α} (h : Keeps x) {m m' : Machine} {r : Except Fault α}
    (hx : x.outcome m = (r, m')) : m.Follows m' := by
  have hF := h m
  rwa [hx] at hF

/-- The second machine has recorded further steps. -/
def Machine.Precedes (m m' : Machine) : Prop :=
  m.recorder.log <:+ m'.recorder.log ∧ m.recorder.log.length < m'.recorder.log.length

namespace Machine.Precedes

variable {m m₁ m₂ : Machine}

theorem of_follows (h : m.Follows m₁) (h' : m₁.Precedes m₂) : m.Precedes m₂ :=
  ⟨h.log.trans h'.1, Nat.lt_of_le_of_lt h.log.length_le h'.2⟩

theorem lasting (m : Machine) : Lasting m.Precedes :=
  fun h hF => ⟨h.1.trans hF.log, Nat.lt_of_lt_of_le h.2 hF.log.length_le⟩

theorem recorded (m : Machine) (line : Int) (kind : StepKind) (explanation : Text)
    (bindings : Table Datum) : m.Precedes (m.recorded line kind explanation bindings) :=
  ⟨List.suffix_cons _ _, Nat.lt_succ_self _⟩

end Machine.Precedes

/-- What `run` does with a body, it does after a step has been recorded: two bodies that are the
same from then on make no difference. -/
def OnlyAfterStep (run : (Scope → Run α) → Run β) : Prop :=
  ∀ (body body' : Scope → Run α) (m : Machine), (∀ scope, Keeps (body scope)) →
    (∀ scope m', m.Precedes m' → (body' scope).outcome m' = (body scope).outcome m') →
      (run body').outcome m = (run body).outcome m

/-- What follows a step only has to agree on machines with that step. -/
theorem step_bind_congr {limits : Limits} {line : Int} {kind : StepKind} {explanation : Text}
    {scope : Scope} {x y : Run α} {m : Machine}
    (h : ∀ m', m.Precedes m' → y.outcome m' = x.outcome m') :
    (Record.step limits line kind explanation scope >>= fun _ => y).outcome m =
      (Record.step limits line kind explanation scope >>= fun _ => x).outcome m := by
  refine outcome_bind_congr fun _ m' hm' => h m' ?_
  rw [Record.outcome_step] at hm'
  split_ifs at hm'
  · cases hm'
  · cases hsnap : m.heap.snapshotScope scope with
    | error fault =>
      rw [hsnap] at hm'
      cases hm'
    | ok bindings =>
      rw [hsnap] at hm'
      cases hm'
      exact .recorded m line kind explanation bindings

/-- A host whose calls keep the steps is like itself. -/
theorem hosts_steady {P : Machine → Prop} (hP : Lasting P) {host : Host}
    (hcall : ∀ name args, Keeps (host.call name args)) :
    (steadiness host.limits hP).Hosts host host :=
  ⟨rfl, rfl, rfl, rfl, fun name args m _ => ⟨rfl, hcall name args m⟩⟩

theorem evaluateText_keeps {host : Host} (hcall : ∀ name args, Keeps (host.call name args))
    (scope : Scope) (text : List Char) : Keeps (host.evaluateText scope text) := fun m =>
  (Likeness.evaluateText (hosts_steady (Machine.Follows.lasting m) hcall) scope text m (.refl m)).2

theorem describe_quiet (host : Host) (v : Value) : Quiet (host.describe v) := .fromHeap _

theorem describeAll_quiet (host : Host) (values : List Value) : Quiet (host.describeAll values) :=
  (Quiet.mapM (describe_quiet host) values).bind fun _ => .pure _

/-- A call runs the body of the function only after a step has been recorded. -/
theorem enterFunction_onlyAfterStep (dialect : Dialect) (functions : FunctionTable)
    (limits : Limits) (name : String) (args : List Value) :
    OnlyAfterStep fun body => enterFunction dialect functions limits (fun _ => body) name args := by
  intro body body' m _ hb
  dsimp only [enterFunction]
  cases functions.get? name with
  | none => rfl
  | some f =>
    dsimp only
    refine outcome_bind_congr fun shown m₁ h₁ => ?_
    have hF := Keeps.follows (.of_quiet (describeAll_quiet _ args)) h₁
    rw [Record.outcome_enter, Record.outcome_enter]
    split_ifs
    · rfl
    cases m₁.heap.snapshotScope (Record.bindParams f.params args) with
    | error fault => rfl
    | ok frame =>
      have hbody : ∀ m' : Machine, (m₁.push ⟨f.name, frame⟩).Precedes m' →
          (body' (Record.bindParams f.params args)).outcome m' =
            (body (Record.bindParams f.params args)).outcome m' :=
        fun m' hm' => hb _ m' (.of_follows hF hm')
      dsimp only
      rw [step_bind_congr hbody]

section Loops

variable (host : Host)

/-- An iteration of a loop with a guard runs the body only after a step has been recorded. -/
theorem whileTrue_onlyAfterStep (hcall : ∀ name args, Keeps (host.call name args)) (line : Nat)
    (guard : List Char) (more iteration cost : Nat) (scope : Scope) :
    OnlyAfterStep fun body => Loop.whileTrue host line guard body more iteration cost scope := by
  intro body body' m hk hb
  have H := hosts_steady (Machine.Precedes.lasting m) hcall
  have hbody : ∀ scope, Steady m.Precedes (body scope) (body' scope) :=
    fun scope m' hm' => ⟨hb scope m' hm', hk scope m'⟩
  dsimp only
  cases more with
  | zero => rw [Loop.whileTrue, Loop.whileTrue]
  | succ more =>
    rw [Loop.whileTrue, Loop.whileTrue]
    refine outcome_bind_congr fun b m₁ h₁ => ?_
    have hF₁ := Keeps.follows (.continueLoop _ _ _ _) h₁
    cases b with
    | false => simp only [Bool.false_eq_true, if_false]
    | true =>
      simp only [if_true]
      refine outcome_bind_congr fun v m₂ h₂ => outcome_bind_congr fun t m₃ h₃ => ?_
      have hF₂ := hF₁.trans (Keeps.follows (evaluateText_keeps hcall scope guard) h₂)
      cases h₃
      split_ifs
      · refine outcome_bind_congr fun before m₃ h₃ => ?_
        cases h₃
        refine step_bind_congr fun m' hm' => ?_
        exact ((steadiness host.limits (Machine.Precedes.lasting m)).bind (hbody scope) fun flow =>
          Likeness.bind _ (Likeness.quiet _ .stepCount) fun _ => Likeness.andThen flow
            (Likeness.whileTrue H rfl guard hbody more (iteration + 1) _)) m'
          (.of_follows hF₂ hm') |>.1
      · rfl

/-- An iteration of a loop over items runs the body only after a step has been recorded. -/
theorem forEach_onlyAfterStep (hcall : ∀ name args, Keeps (host.call name args)) (line : Nat)
    (name : String) (items : List Value) (iteration cost : Nat) (scope : Scope) :
    OnlyAfterStep fun body => Loop.forEach host line name body items iteration cost scope := by
  intro body body' m hk hb
  have H := hosts_steady (Machine.Precedes.lasting m) hcall
  have hbody : ∀ scope, Steady m.Precedes (body scope) (body' scope) :=
    fun scope m' hm' => ⟨hb scope m' hm', hk scope m'⟩
  dsimp only
  cases items with
  | nil => rw [Loop.forEach, Loop.forEach]
  | cons item items =>
    rw [Loop.forEach, Loop.forEach]
    refine outcome_bind_congr fun b m₁ h₁ => ?_
    have hF₁ := Keeps.follows (.continueLoop _ _ _ _) h₁
    cases b with
    | false => simp only [Bool.false_eq_true, if_false]
    | true =>
      simp only [if_true]
      refine outcome_bind_congr fun before m₂ h₂ => outcome_bind_congr fun shown m₃ h₃ => ?_
      cases h₂
      have hF₂ := hF₁.trans (Keeps.follows (.of_quiet (describe_quiet host item)) h₃)
      refine step_bind_congr fun m' hm' => ?_
      exact ((steadiness host.limits (Machine.Precedes.lasting m)).bind (hbody _) fun flow =>
        Likeness.bind _ (Likeness.quiet _ .stepCount) fun _ => Likeness.andThen flow
          (Likeness.forEach H rfl name hbody items (iteration + 1) _)) m'
        (.of_follows hF₂ hm') |>.1

end Loops

end Steps

section Programs

variable (dialect : Dialect) (limits : Limits) {p : Program} (hp : p.Numbered)

include hp

/-- A call keeps the steps and the calls under way. -/
theorem call_steady : ∀ (room count depth : Nat) (name : String) (args : List Value),
    Steady (From count depth) ((hostWithRoom dialect limits p room).call name args)
      ((hostWithRoom dialect limits p room).call name args)
  | 0, count, depth, _, _ =>
    (steadyFrom limits count depth).enterFunction rfl fun _ _ _ => Steady.enter fun _ _ _ =>
      (steadyFrom limits (count + 1) (depth + 1)).fault _
  | room + 1, count, depth, _, _ => by
    refine (steadyFrom limits count depth).enterFunction rfl fun f hf _ =>
      Steady.enter fun _ _ scope => ?_
    have H : (steadyFrom limits (count + 1) (depth + 1)).Hosts
        (hostWithRoom dialect limits p room) (hostWithRoom dialect limits p room) :=
      ⟨rfl, rfl, rfl, rfl, call_steady room _ _⟩
    exact (steadyFrom limits (count + 1) (depth + 1)).bind
      (Likeness.block (fun _ => rfl) dialect H (Likeness.loops_run H rfl) p.size
        (functionTable_stop_le hp hf) scope)
      fun _ => Likeness.value _ _

theorem call_keeps (room : Nat) (name : String) (args : List Value) :
    Keeps ((hostWithRoom dialect limits p room).call name args) := fun m =>
  (call_steady dialect limits hp room m.recorder.stepCount m.recorder.frames.length name args m
    ⟨Nat.le_refl _, rfl⟩).2

theorem block_keeps (room fuel : Nat) {extent : Extent} (hs : extent.stop ≤ p.size)
    (scope : Scope) :
    Keeps (runBlock p (semanticsOf dialect (hostWithRoom dialect limits p room) p) fuel extent
      scope) := fun m => by
  have H : (steadyFrom limits m.recorder.stepCount m.recorder.frames.length).Hosts
      (hostWithRoom dialect limits p room) (hostWithRoom dialect limits p room) :=
    ⟨rfl, rfl, rfl, rfl, call_steady dialect limits hp room _ _⟩
  exact (Likeness.block (fun _ => rfl) dialect H (Likeness.loops_run H rfl) fuel hs scope m
    ⟨Nat.le_refl _, rfl⟩).2

end Programs

/-- What makes the runs of a program end. A host is given by the number of calls that may still
nest. -/
structure Terminates (dialect : Dialect) (limits : Limits) (p : Program) : Prop where
  /-- A line hands back a later line of the program, or its end. -/
  progress : ∀ {host : Host} {runBlock : Extent → Block} {i next : Nat} {scope : Scope}
    {flow : Flow}, i < p.size → Returns (semanticsOf dialect host p runBlock i scope) (next, flow) →
      i < next ∧ next ≤ p.size
  /-- The branches after a block are skipped within the lines that are left. -/
  skippedBranches : ∀ depth, Settles (Indented.skipStep p depth)
    (fun start => 0 < start ∧ start ≤ p.size) (fun start => p.size - start + 1)
    (Indented.skipBranches p depth p.size)
  /-- A chain of branches is read within the lines that are left. -/
  indentedChains : ∀ depth, Settles (Indented.chainStep p depth) (· < p.size)
    (fun i => p.size - i) (Indented.chainFrom p depth p.size)
  bracedChains : ∀ depth, Settles (Braced.chainStep p depth) (· < p.size)
    (fun i => p.size - i) (Braced.chainFrom p depth p.size)
  /-- The branches on one line are read within the length of their text. -/
  branchLines : Settles Braced.readStep (fun _ => True) (fun text => text.length + 1)
    Braced.BranchLine.read
  /-- The end of a statement is found within the lines that are left. -/
  statementEnds : Settles (Braced.endStep p) (· < p.size) (fun i => p.size - i) (Braced.endOf p)
  /-- An expression is evaluated within its size. -/
  expressions : ∀ host scope,
    Settles (Eval.evalStep host scope) (fun _ => True) Expr.size (Eval.eval host scope)
  /-- Blocks never take steps back. -/
  blocks : ∀ {room fuel : Nat} {extent : Extent} {scope : Scope}, extent.stop ≤ p.size →
    Keeps (runBlock p (semanticsOf dialect (hostWithRoom dialect limits p room) p) fuel extent
      scope)
  /-- Calls and iterations run their bodies only after a step has been recorded. -/
  calls : ∀ name args, OnlyAfterStep fun body =>
    enterFunction dialect (functionTable dialect p) limits (fun _ => body) name args
  guardedLoops : ∀ room line guard more iteration cost scope, OnlyAfterStep fun body =>
    Loop.whileTrue (hostWithRoom dialect limits p room) line guard body more iteration cost scope
  itemLoops : ∀ room line name items iteration cost scope, OnlyAfterStep fun body =>
    Loop.forEach (hostWithRoom dialect limits p room) line name body items iteration cost scope
  /-- So many layers of the recursion without any bound are the whole run, whatever comes below. -/
  layers : ∀ (bottom : Unrolling) (n : Nat), (limits.maxSteps.toNat + 1) * (p.size + 3) ≤ n →
    programBy dialect p ((unroll dialect limits p)^[n] bottom).block = runProgram dialect limits p

/-- The runs of every source text end, under all limits. -/
theorem every_run_ends (dialect : Dialect) (limits : Limits) (source : String) :
    Terminates dialect limits (layout dialect source.toList) := by
  have hp := layout_numbered dialect source.toList
  exact
    { progress := fun hi h => runLineBy_progress _ hi (semanticsOf_eq dialect _ _ ▸ h)
      skippedBranches := Indented.skipBranches_settles _
      indentedChains := Indented.chainFrom_settles _
      bracedChains := Braced.chainFrom_settles _
      branchLines := Braced.read_settles
      statementEnds := Braced.endOf_settles _
      expressions := Eval.eval_settles
      blocks := fun hs => block_keeps dialect limits hp _ _ hs _
      calls := enterFunction_onlyAfterStep dialect _ limits
      guardedLoops := fun room =>
        whileTrue_onlyAfterStep _ (call_keeps dialect limits hp room)
      itemLoops := fun room => forEach_onlyAfterStep _ (call_keeps dialect limits hp room)
      layers := fun bottom _ hn => program_unroll dialect limits hp bottom hn }

end Stepwise
