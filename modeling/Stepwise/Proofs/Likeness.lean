import Mathlib.Data.List.Forall2
import Stepwise.Proofs.Outcome

/-!
# Alike runs

Two runs of one program may differ in their limits and in how they call functions, and the program
may stand on other lines. A `Likeness` is a relation between computations that binding, recovering
from faults, recording a step, asking for another iteration and everything that is unaware of the
steps respect. It then holds between all that two hosts do with one statement, as soon as it holds
between their calls: `Likeness.simple` for the indented dialect, `Likeness.statements` for the
braced one.
-/

namespace Stepwise

variable {α β : Type}

/-- A relation between the computations of a run with the limits `l` and of one with `l'`. -/
structure Likeness (l l' : Limits) where
  /-- The lines of the two runs where one statement stands. -/
  Lines : Int → Int → Prop
  Rel : ∀ {α : Type}, Run α → Run α → Prop
  bindReturned : ∀ {α β : Type} {x y : Run α} {f g : α → Run β},
    Rel x y → (∀ a, Returns x a → Rel (f a) (g a)) → Rel (x >>= f) (y >>= g)
  quiet : ∀ {α : Type} {x : Run α}, Unaware x → Rel x x
  recover : ∀ {x y : Run Value}, Rel x y → Rel (Run.recover x) (Run.recover y)
  step : ∀ {line line' : Int}, Lines line line' →
    ∀ (kind : StepKind) (explanation : Text) (scope : Scope),
      Rel (Record.step l line kind explanation scope) (Record.step l' line' kind explanation scope)
  continueLoop : ∀ {line line' : Int}, Lines line line' → ∀ iteration cost : Int,
    Rel (Record.continueLoop l line iteration cost) (Record.continueLoop l' line' iteration cost)

namespace Likeness

variable {l l' : Limits} (A : Likeness l l')

/-- Hosts of one dialect that differ at most in limits and calls, with calls that are alike. -/
structure Hosts (h h' : Host) : Prop where
  dialect : h'.dialect = h.dialect
  limits : h.limits = l
  limits' : h'.limits = l'
  callsPerExpression : l'.maxCallsPerExpression = l.maxCallsPerExpression
  call : ∀ name args, A.Rel (h.call name args) (h'.call name args)

theorem bind {x y : Run α} {f g : α → Run β} (h : A.Rel x y) (hf : ∀ a, A.Rel (f a) (g a)) :
    A.Rel (x >>= f) (y >>= g) :=
  A.bindReturned h fun a _ => hf a

theorem value (a : α) : A.Rel (pure a) (pure a) := A.quiet (.pure a)

theorem fault (f : Fault) : A.Rel (throw f : Run α) (throw f) := A.quiet (.throw f)

/-- What looks at the heap only. -/
theorem withHeap {f g : Machine → Run β} (hf : ∀ m, f m = f { heap := m.heap })
    (hg : ∀ m, g m = g { heap := m.heap }) (h : ∀ m, A.Rel (f m) (g m)) :
    A.Rel (get >>= f) (get >>= g) := by
  have key : ∀ f : Machine → Run β, (∀ m, f m = f { heap := m.heap }) →
      (get >>= f) = Run.fromHeap (fun heap => .ok heap) >>= fun heap => f { heap } := by
    intro f hf
    refine Run.ext_outcome fun m => ?_
    rw [Run.outcome_bind_ok (Run.outcome_get m), Run.outcome_bind_ok (Run.outcome_fromHeap _ m),
      hf m]
  rw [key f hf, key g hg]
  exact A.bind (A.quiet (.fromHeap _)) fun heap => h { heap }

theorem mapM {f g : α → Run β} (h : ∀ a, A.Rel (f a) (g a)) :
    ∀ xs : List α, A.Rel (xs.mapM f) (xs.mapM g)
  | [] => A.value []
  | x :: xs => by
    rw [List.mapM_cons, List.mapM_cons]
    exact A.bind (h x) fun b => A.bind (mapM h xs) fun bs => A.value (b :: bs)

section Expressions

/-- Alike evaluation inside one expression, however many calls are left. -/
def EvalRel (x y : EvalM α) : Prop := ∀ n, A.Rel (x.run n) (y.run n)

variable {A}

theorem EvalRel.bind {x y : EvalM α} {f g : α → EvalM β} (h : A.EvalRel x y)
    (hf : ∀ a, A.EvalRel (f a) (g a)) : A.EvalRel (x >>= f) (y >>= g) :=
  fun n => A.bind (h n) fun r => hf r.1 r.2

theorem EvalRel.lift {x y : Run α} (h : A.Rel x y) :
    A.EvalRel (liftM x : EvalM α) (liftM y : EvalM α) :=
  fun n => A.bind h fun a => A.value (a, n)

theorem EvalRel.value (a : α) : A.EvalRel (pure a) (pure a) := fun n => A.value (a, n)

theorem EvalRel.whenTrue (v : Value) {x x' y y' : EvalM α} (hx : A.EvalRel x x')
    (hy : A.EvalRel y y') :
    A.EvalRel (do if ← Run.isTrue v then x else y) (do if ← Run.isTrue v then x' else y') :=
  (lift (A.quiet (.isTrue v))).bind fun b => by cases b <;> assumption

theorem EvalRel.spendCall : A.EvalRel Eval.spendCall Eval.spendCall := fun n => by
  have hrun : Eval.spendCall.run n =
      (if n - 1 < 0 then throw .undefined else pure ((), n - 1) : Run (Unit × Int)) := by
    show (if n - 1 < 0 then (throw .undefined : EvalM Unit) else pure ()).run (n - 1) = _
    split_ifs <;> rfl
  rw [hrun]
  split_ifs
  · exact A.fault _
  · exact A.value _

variable {h h' : Host}

theorem callNamed (H : A.Hosts h h') (name : String) (args : List Value) :
    A.Rel (Eval.callNamed h name args) (Eval.callNamed h' name args) := by
  unfold Eval.callNamed
  rw [H.dialect]
  split
  · exact A.quiet (.builtin ‹_› args)
  · exact H.call name args

theorem lookup (scope : Scope) (name : String) :
    A.Rel (Eval.lookup scope name) (Eval.lookup scope name) := by
  unfold Eval.lookup
  split
  · exact A.value _
  · exact A.fault _

mutual

theorem eval (H : A.Hosts h h') (scope : Scope) :
    ∀ e : Expr, A.EvalRel (Eval.eval h scope e) (Eval.eval h' scope e)
  | .lit _ => by
    rw [Eval.eval, Eval.eval]
    exact .value _
  | .var name => by
    rw [Eval.eval, Eval.eval]
    exact .lift (lookup scope name)
  | .list items => by
    rw [Eval.eval, Eval.eval]
    exact (evalAll H scope items).bind fun values => .lift (A.quiet (.onHeap _))
  | .unary op operand => by
    rw [Eval.eval, Eval.eval]
    exact (eval H scope operand).bind fun v => .lift (A.quiet (.onHeap _))
  | .binary op left right => by
    rw [Eval.eval, Eval.eval]
    refine (eval H scope left).bind fun v => ?_
    have hw := eval H scope right
    cases op with
    | and => exact .whenTrue v hw (.value v)
    | or => exact .whenTrue v (.value v) hw
    | logicalAnd =>
      exact .whenTrue v
        (hw.bind fun w => (EvalRel.lift (A.quiet (.isTrue w))).bind fun _ => .value _)
        (.value _)
    | logicalOr =>
      exact .whenTrue v (.value _)
        (hw.bind fun w => (EvalRel.lift (A.quiet (.isTrue w))).bind fun _ => .value _)
    | _ =>
      rw [H.dialect]
      exact hw.bind fun w => .lift (A.quiet (.onHeap _))
  | .index target position => by
    rw [Eval.eval, Eval.eval, H.dialect]
    exact (eval H scope target).bind fun v => (eval H scope position).bind fun i =>
      .lift (A.quiet (.fromHeap _))
  | .call name args => by
    rw [Eval.eval, Eval.eval]
    exact EvalRel.spendCall.bind fun _ => (evalAll H scope args).bind fun values =>
      .lift (callNamed H name values)
  | .method receiver name args => by
    rw [Eval.eval, Eval.eval]
    exact (eval H scope receiver).bind fun v => (evalAll H scope args).bind fun values =>
      .lift (A.quiet (.onHeap _))

theorem evalAll (H : A.Hosts h h') (scope : Scope) :
    ∀ es : List Expr, A.EvalRel (Eval.evalAll h scope es) (Eval.evalAll h' scope es)
  | [] => by
    rw [Eval.evalAll, Eval.evalAll]
    exact .value _
  | e :: es => by
    rw [Eval.evalAll, Eval.evalAll]
    exact (eval H scope e).bind fun v => (evalAll H scope es).bind fun values => .value _

end

theorem EvalRel.run' {x y : EvalM α} (h : A.EvalRel x y) (n : Int) :
    A.Rel (x.run' n) (y.run' n) := by
  rw [StateT.run'_eq, StateT.run'_eq, map_eq_pure_bind, map_eq_pure_bind]
  exact A.bind (h n) fun r => A.value r.1

end Expressions

section Hosts

variable {A} {h h' : Host} (H : A.Hosts h h')
include H

theorem evaluate (scope : Scope) (e : Expr) :
    A.Rel (h.evaluate scope e) (h'.evaluate scope e) := by
  unfold Host.evaluate
  rw [H.limits, H.limits', H.callsPerExpression]
  exact A.recover ((eval H scope e).run' _)

theorem evaluateText (scope : Scope) (text : List Char) :
    A.Rel (h.evaluateText scope text) (h'.evaluateText scope text) := by
  unfold Host.evaluateText
  rw [H.dialect]
  dsimp only
  split_ifs
  · exact A.value _
  · split
    · exact evaluate H scope _
    · exact A.value _

theorem evaluateEach (scope : Scope) :
    ∀ es : List Expr, A.Rel (h.evaluateEach scope es) (h'.evaluateEach scope es)
  | [] => A.value []
  | e :: es => A.bind (evaluate H scope e) fun v =>
      A.bind (evaluateEach scope es) fun values => A.value (v :: values)

theorem evaluateTexts (scope : Scope) :
    ∀ texts : List (List Char), A.Rel (h.evaluateTexts scope texts) (h'.evaluateTexts scope texts)
  | [] => A.value []
  | text :: texts => A.bind (evaluateText H scope text) fun v =>
      A.bind (evaluateTexts scope texts) fun values => A.value (v :: values)

theorem parse (text : List Char) : A.Rel (h.parse text) (h'.parse text) := by
  unfold Host.parse
  rw [H.dialect]
  exact A.quiet (.ofExcept _)

theorem callMethod (scope : Scope) (receiver : Expr) (name : String) (args : List Value) :
    A.Rel (h.callMethod scope receiver name args) (h'.callMethod scope receiver name args) := by
  unfold Host.callMethod
  rw [H.limits, H.limits', H.callsPerExpression]
  exact A.recover (A.bind ((eval H scope receiver).run' _) fun v => A.quiet (.onHeap _))

theorem describe (v : Value) : A.Rel (h.describe v) (h'.describe v) := by
  unfold Host.describe
  rw [H.dialect]
  exact A.quiet (.fromHeap _)

theorem describeAll (values : List Value) : A.Rel (h.describeAll values) (h'.describeAll values) :=
  A.bind (A.mapM (describe H) values) fun _ => A.value _

theorem display (v : Value) : A.Rel (h.display v) (h'.display v) := by
  unfold Host.display
  rw [H.dialect]
  exact A.quiet (.fromHeap _)

theorem record {line line' : Nat} (hline : A.Lines line line')
    (kind : StepKind) (explanation : Text) (scope : Scope) :
    A.Rel (h.record line kind explanation scope) (h'.record line' kind explanation scope) := by
  unfold Host.record
  rw [H.limits, H.limits']
  exact A.step hline kind explanation scope

theorem combine (op : BinaryOp) (v w : Value) : A.Rel (h.combine op v w) (h'.combine op v w) := by
  unfold Host.combine
  rw [H.dialect]
  exact A.recover (A.quiet (.onHeap _))

theorem store (target : Expr) (v : Value) (scope : Scope) :
    A.Rel (h.store target v scope) (h'.store target v scope) := by
  cases target with
  | index container position =>
    refine A.bind (evaluate H scope container) fun base =>
      A.bind (evaluate H scope position) fun index => ?_
    rw [H.dialect]
    split
    · exact A.value _
    · split_ifs
      · exact A.value _
      · split
        · exact A.bind (A.quiet (.storeItem _ _ _)) fun _ => A.value _
        · split <;> exact A.value _
        · exact A.value _
  | _ => exact A.value _

theorem parseTargets (texts : List (List Char)) :
    A.Rel (h.parseTargets texts) (h'.parseTargets texts) := by
  refine A.bind (A.mapM (parse H) texts) fun parsed => ?_
  split <;> exact A.value _

theorem parseTarget (text : List Char) : A.Rel (h.parseTarget text) (h'.parseTarget text) :=
  A.bind (parse H text) fun _ => A.value _

theorem storeEach : ∀ (pairs : List (Expr × Value)) (scope : Scope),
    A.Rel (h.storeEach pairs scope) (h'.storeEach pairs scope)
  | [], scope => A.value scope
  | (target, v) :: rest, scope =>
    A.bind (store H target v scope) fun r => storeEach rest r.2

end Hosts

section Flows

variable {A} {run run' : α → Block}

theorem andThen (flow : Flow) {next next' : Block}
    (hn : ∀ scope, A.Rel (next scope) (next' scope)) :
    A.Rel (flow.andThen next) (flow.andThen next') := by
  unfold Flow.andThen
  split
  · exact A.value flow
  · exact hn flow.scope

theorem inTurn (hr : ∀ piece scope, A.Rel (run piece scope) (run' piece scope)) :
    ∀ (pieces : List α) (scope : Scope),
      A.Rel (Flow.inTurn run pieces scope) (Flow.inTurn run' pieces scope)
  | [], _ => A.value _
  | piece :: rest, scope =>
    A.bind (hr piece scope) fun flow => andThen flow (inTurn hr rest)

end Flows

section IndentedStatements

variable {A} {h h' : Host} (H : A.Hosts h h')
include H

theorem printing (scope : Scope) : ∀ (args : List (List Char)) (acc : Indented.Printing),
    A.Rel (Indented.printing h scope args acc) (Indented.printing h' scope args acc)
  | [], acc => A.value acc
  | arg :: rest, acc => by
    have ih := printing scope rest
    rw [Indented.printing, Indented.printing]
    dsimp only
    split
    · exact A.bind (evaluateText H scope _) fun _ => A.bind (A.value _) ih
    · exact A.bind (evaluateText H scope _) fun v => A.bind (display H v) fun _ =>
        A.bind (A.value _) ih
    · exact A.bind (evaluateText H scope _) fun v => A.bind (display H v) fun _ =>
        A.bind (A.value _) ih
    · exact A.bind (A.value _) ih

theorem print {line line' : Nat} (hline : A.Lines line line') (args : List Char) (scope : Scope) :
    A.Rel (Indented.print h line args scope) (Indented.print h' line' args scope) :=
  A.bind (printing H scope _ _) fun parts => A.bind (A.mapM (display H) parts.values) fun _ =>
    A.bind (A.quiet (.write _ _)) fun _ => record H hline _ _ scope

theorem assignChain {line line' : Nat} (hline : A.Lines line line')
    (chain : List (List Char)) (value : List Char) (scope : Scope) :
    A.Rel (Indented.assignChain h line chain value scope)
      (Indented.assignChain h' line' chain value scope) := by
  refine A.bind (parseTargets H chain) fun targets => ?_
  split
  · exact A.value _
  · exact A.bind (evaluateText H scope value) fun v => A.bind (storeEach H _ scope) fun scope =>
      A.bind (describe H v) fun _ => A.bind (record H hline _ _ scope) fun _ => A.value _

theorem assignCombined {line line' : Nat} (hline : A.Lines line line')
    (target : Expr) (a : Source.Assignment) (op : BinaryOp)
    (scope : Scope) :
    A.Rel (Indented.assignCombined h line target a op scope)
      (Indented.assignCombined h' line' target a op scope) :=
  A.bind (evaluateText H scope a.value) fun v => A.bind (evaluate H scope target) fun current =>
    A.bind (combine H op current v) fun result => A.bind (store H target result scope) fun _ =>
      A.bind (describe H v) fun _ => A.bind (describe H result) fun _ =>
        A.bind (record H hline _ _ _) fun _ => A.value _

theorem unpacked (count : Nat) (value : List Char) (scope : Scope) :
    A.Rel (Indented.unpacked h count value scope) (Indented.unpacked h' count value scope) := by
  unfold Indented.unpacked
  split_ifs
  · exact A.bind (evaluateText H scope value) fun _ => A.value _
  · dsimp only
    split_ifs
    · exact evaluateTexts H scope _
    · refine A.bind (evaluateText H scope value) fun packed =>
        A.withHeap (fun _ => rfl) (fun _ => rfl) fun m => ?_
      split <;> exact A.value _

theorem assign {line line' : Nat} (hline : A.Lines line line')
    (a : Source.Assignment) (scope : Scope) :
    A.Rel (Indented.assign h line a scope) (Indented.assign h' line' a scope) := by
  unfold Indented.assign
  split
  · exact assignChain H hline _ _ scope
  · refine A.bind (parseTargets H _) fun targets => ?_
    split
    · exact A.value _
    · exact A.value _
    · exact A.bind (assignCombined H hline _ a _ scope) fun _ => A.value _
    · exact A.value _
    · exact A.bind (unpacked H _ a.value scope) fun values =>
        A.bind (storeEach H _ scope) fun scope => A.bind (describeAll H values) fun _ =>
          A.bind (record H hline _ _ scope) fun _ => A.value _

theorem callMethodStatement {line line' : Nat} (hline : A.Lines line line')
    (text : List Char) (receiver : Expr) (name : String)
    (args : List Expr) (scope : Scope) :
    A.Rel (Indented.callMethod h line text receiver name args scope)
      (Indented.callMethod h' line' text receiver name args scope) :=
  A.bind (evaluateEach H scope args) fun values =>
    A.bind (callMethod H scope receiver name values) fun _ =>
      A.bind (describeAll H values) fun _ => record H hline _ _ scope

theorem evaluateOnly {line line' : Nat} (hline : A.Lines line line')
    (text : List Char) (e : Option Expr) (scope : Scope) :
    A.Rel (Indented.evaluateOnly h line text e scope)
      (Indented.evaluateOnly h' line' text e scope) := by
  unfold Indented.evaluateOnly
  split
  · exact callMethodStatement H hline text _ _ _ scope
  · exact A.bind (evaluate H scope _) fun _ => record H hline _ _ scope
  · exact record H hline _ _ scope

/-- Simple statements of the indented dialect are alike. -/
theorem simple {line line' : Nat} (hline : A.Lines line line') (text : List Char) (scope : Scope) :
    A.Rel (Indented.simple h line text scope) (Indented.simple h' line' text scope) := by
  unfold Indented.simple
  split
  · exact A.bind (print H hline _ scope) fun _ => A.value _
  · refine A.bind (parse H text) fun e => ?_
    have evaluated : A.Rel (do Indented.evaluateOnly h line text e scope; pure scope)
        (do Indented.evaluateOnly h' line' text e scope; pure scope) :=
      A.bind (evaluateOnly H hline text e scope) fun _ => A.value _
    dsimp only
    split
    · refine A.bind (assign H hline _ scope) ?_
      rintro (_ | scope')
      · exact evaluated
      · exact A.value _
    · refine A.bind (A.value none) ?_
      rintro (_ | scope')
      · exact evaluated
      · exact A.value _

theorem giveBack {line line' : Nat} (hline : A.Lines line line')
    (text : List Char) (scope : Scope) :
    A.Rel (Indented.giveBack h line text scope) (Indented.giveBack h' line' text scope) := by
  have rest : ∀ v, A.Rel
      (do let described ← h.describe v
          h.record line .functionReturn ("Return " ++ described) scope
          pure { scope, returned := some v : Flow })
      (do let described ← h'.describe v
          h'.record line' .functionReturn ("Return " ++ described) scope
          pure { scope, returned := some v : Flow }) :=
    fun v => A.bind (describe H v) fun _ => A.bind (record H hline _ _ scope) fun _ => A.value _
  unfold Indented.giveBack
  dsimp only
  split_ifs
  · exact A.bind (A.value _) rest
  · exact A.bind (evaluateText H scope text) rest

end IndentedStatements

section BracedStatements

variable {A} {h h' : Host} (H : A.Hosts h h')
include H

theorem itemValues (isFloat : Bool) (scope : Scope) : ∀ items : List (List Char),
    A.Rel (Braced.itemValues h isFloat scope items) (Braced.itemValues h' isFloat scope items)
  | [] => A.value []
  | item :: rest => A.bind (evaluateText H scope item) fun _ =>
      A.bind (A.quiet (.ofExcept _)) fun w => A.bind (itemValues isFloat scope rest) fun ws =>
        A.value (w :: ws)

theorem arrayValue (size : List Char) (init : Option (List Char)) (isFloat : Bool)
    (scope : Scope) :
    A.Rel (Braced.arrayValue h size init isFloat scope)
      (Braced.arrayValue h' size init isFloat scope) := by
  refine A.bind (evaluateText H scope size) fun v => ?_
  split
  · split
    · exact A.bind (itemValues H isFloat scope _) fun _ => A.quiet (.onHeap _)
    · exact evaluateText H scope _
  · split
    · exact A.quiet (.onHeap _)
    · exact A.value _

theorem initialValue (isFloat : Bool) (d : Braced.Declarator) (scope : Scope) :
    A.Rel (Braced.initialValue h isFloat d scope) (Braced.initialValue h' isFloat d scope) := by
  unfold Braced.initialValue
  split
  · exact arrayValue H _ _ isFloat scope
  · exact A.bind (evaluateText H scope _) fun _ => A.quiet (.ofExcept _)
  · exact A.value _

theorem declareEach (isFloat : Bool) : ∀ (ds : List Braced.Declarator) (scope : Scope),
    A.Rel (Braced.declareEach h isFloat ds scope) (Braced.declareEach h' isFloat ds scope)
  | [], _ => A.value _
  | d :: ds, scope => A.bind (initialValue H isFloat d scope) fun v =>
      A.bind (describe H v) fun _ => A.bind (declareEach isFloat ds _) fun _ => A.value _

theorem declare {line line' : Nat} (hline : A.Lines line line')
    (d : Braced.Declaration) (scope : Scope) :
    A.Rel (Braced.declare h line d scope) (Braced.declare h' line' d scope) := by
  unfold Braced.declare
  split
  · exact A.value _
  · exact A.value _
  · exact A.bind (declareEach H d.isFloat _ scope) fun r =>
      A.bind (record H hline _ _ r.2) fun _ => A.value _

theorem increment {line line' : Nat} (hline : A.Lines line line')
    (target : List Char) (change : Braced.Change) (shown : String)
    (scope : Scope) :
    A.Rel (Braced.increment h line target change shown scope)
      (Braced.increment h' line' target change shown scope) := by
  refine A.bind (parseTarget H target) fun e => ?_
  split
  · exact A.value _
  · exact A.bind (evaluate H scope _) fun current => A.bind (combine H _ current _) fun result =>
      A.bind (store H _ result scope) fun r => A.bind (describe H result) fun _ =>
        A.bind (record H hline _ _ r.2) fun _ => A.value _

theorem currentValue (target : Expr) (scope : Scope) :
    A.Rel (Braced.currentValue h target scope) (Braced.currentValue h' target scope) := by
  unfold Braced.currentValue
  split
  · exact A.value _
  · exact evaluate H scope _

theorem storeChain : ∀ (targets : List Expr) (v : Value) (scope : Scope),
    A.Rel (Braced.storeChain h targets v scope) (Braced.storeChain h' targets v scope)
  | [], _, _ => A.value _
  | target :: rest, _, scope => A.bind (currentValue H target scope) fun _ =>
      A.bind (A.quiet (.ofExcept _)) fun w => A.bind (store H target w scope) fun r =>
        storeChain rest w r.2

theorem bracedAssignChain {line line' : Nat} (hline : A.Lines line line')
    (chain : List (List Char)) (value : List Char)
    (scope : Scope) :
    A.Rel (Braced.assignChain h line chain value scope)
      (Braced.assignChain h' line' chain value scope) := by
  refine A.bind (parseTargets H chain) fun targets => ?_
  split
  · exact A.value _
  · exact A.bind (evaluateText H scope value) fun v => A.bind (storeChain H _ v scope) fun r =>
      A.bind (describe H r.1) fun _ => A.bind (record H hline _ _ r.2) fun _ => A.value _

theorem assignOne {line line' : Nat} (hline : A.Lines line line')
    (target : Expr) (a : Source.Assignment) (scope : Scope) :
    A.Rel (Braced.assignOne h line target a scope) (Braced.assignOne h' line' target a scope) := by
  refine A.bind (evaluateText H scope a.value) fun _ => A.bind (currentValue H target scope)
    fun _ => ?_
  have rest : ∀ r : Value × Text, A.Rel
      (do let s ← h.store target r.1 scope
          h.record line .assignment r.2 s.2
          pure s.2)
      (do let s ← h'.store target r.1 scope
          h'.record line' .assignment r.2 s.2
          pure s.2) :=
    fun r => A.bind (store H target r.1 scope) fun s => A.bind (record H hline _ _ s.2) fun _ =>
      A.value _
  dsimp only
  split
  · exact A.bind (A.quiet (.ofExcept _)) fun result => A.bind (describe H result) fun _ =>
      A.bind (A.value _) rest
  · exact A.bind (combine H _ _ _) fun _ => A.bind (A.quiet (.ofExcept _)) fun result =>
      A.bind (describe H _) fun _ => A.bind (describe H result) fun _ => A.bind (A.value _) rest

theorem bracedAssign {line line' : Nat} (hline : A.Lines line line')
    (a : Source.Assignment) (scope : Scope) :
    A.Rel (Braced.assign h line a scope) (Braced.assign h' line' a scope) := by
  unfold Braced.assign
  split_ifs
  · exact A.value _
  · split
    · exact bracedAssignChain H hline _ _ scope
    · refine A.bind (parseTarget H a.target) fun target => ?_
      split
      · exact A.bind (assignOne H hline _ a scope) fun _ => A.value _
      · exact A.value _

theorem output {line line' : Nat} (hline : A.Lines line line')
    (function : String) (args : List Expr) (scope : Scope) :
    A.Rel (Braced.output h line function args scope) (Braced.output h' line' function args scope) :=
  A.bind (evaluateEach H scope args) fun _ => A.bind (A.quiet (.fromHeap _)) fun _ =>
    A.bind (A.quiet (.write _ _)) fun _ => record H hline _ _ scope

omit H in
theorem firstFit {rs rs' : List (Scope → Run (Option Scope))}
    (hr : List.Forall₂ (fun r r' => ∀ scope, A.Rel (r scope) (r' scope)) rs rs') (scope : Scope) :
    A.Rel (Braced.firstFit rs scope) (Braced.firstFit rs' scope) := by
  induction hr with
  | nil => exact A.value _
  | cons hr _ ih =>
    refine A.bind (hr scope) fun fit => ?_
    split
    · exact A.value _
    · exact ih

theorem changes {line line' : Nat} (hline : A.Lines line line') (text : List Char) :
    List.Forall₂ (fun r r' => ∀ scope, A.Rel (r scope) (r' scope))
      (Braced.changes h line text) (Braced.changes h' line' text) := by
  refine .cons (fun scope => ?_) (.cons (fun scope => ?_) (.cons (fun scope => ?_)
    (.cons (fun scope => ?_) .nil))) <;> split
  · exact declare H hline _ scope
  · exact A.value _
  · exact increment H hline _ _ _ scope
  · exact A.value _
  · exact increment H hline _ _ _ scope
  · exact A.value _
  · exact bracedAssign H hline _ scope
  · exact A.value _

theorem statement {line line' : Nat} (hline : A.Lines line line')
    (text : List Char) (scope : Scope) :
    A.Rel (Braced.statement h line text scope) (Braced.statement h' line' text scope) := by
  unfold Braced.statement
  split
  · exact giveBack H hline _ scope
  · refine A.bind (parse H text) fun e => ?_
    split
    · exact A.bind (output H hline _ _ scope) fun _ => A.value _
    · refine A.bind (firstFit (changes H hline text) scope) fun fit => ?_
      have rest : A.Rel
          (do h.record line .expression s!"Evaluated: {String.ofList text}" scope
              pure { scope : Flow })
          (do h'.record line' .expression s!"Evaluated: {String.ofList text}" scope
              pure { scope : Flow }) :=
        A.bind (record H hline _ _ scope) fun _ => A.value _
      split
      · exact A.value _
      · split
        · exact A.bind (evaluate H scope _) fun _ => rest
        · exact rest

/-- The statements of a line of the braced dialect are alike. -/
theorem statements {line line' : Nat} (hline : A.Lines line line')
    (text : List Char) (scope : Scope) :
    A.Rel (Braced.statements h line text scope) (Braced.statements h' line' text scope) :=
  inTurn (statement H hline) _ scope

theorem advance {line line' : Nat} (hline : A.Lines line line') :
    ∀ (texts : List (List Char)) (scope : Scope),
    A.Rel (Braced.advance h line texts scope) (Braced.advance h' line' texts scope)
  | [], scope => A.value scope
  | text :: rest, scope =>
    A.bind (statement H hline text scope) fun flow => advance hline rest flow.scope

end BracedStatements

end Likeness

end Stepwise
