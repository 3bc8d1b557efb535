import Stepwise.Proofs.Likeness
import Stepwise.Proofs.Tables

/-!
# Running one line

A line is run with the help of three things: the host, the way the blocks inside it are run, and the
way its loops are run. `runLineBy` takes the loops as an argument too. A line hands back a later
line of the program (`runLineBy_progress`), asks only for blocks below it, and does alike things
with alike helpers (`Likeness.runLineBy`).
-/

namespace Stepwise

open Source Text

/-- How a loop is run: the line, the guard and the body are given. -/
abbrev LoopRunner := Nat → List Char → Block → Block

namespace Indented

/-- Run a line with the loops that `loop` runs. -/
def runLineBy (loop : LoopRunner) (host : Host) (p : Program) : LineRunner :=
  fun runBody i scope =>
    match shape (p.line i).text with
    | .whileLoop guard => do
      host.record i .loopStart s!"While loop: {String.ofList guard}" scope
      pure ((p.body i).stop, ← loop i guard (runBody (p.body i)) scope)
    | _ => runLine host p runBody i scope

theorem runLine_eq (host : Host) (p : Program) :
    runLine host p = runLineBy (Loop.run host) host p := by
  funext runBody i scope
  unfold runLineBy
  split
  · rename_i guard h
    unfold runLine
    simp only [h]
  · rfl

end Indented

namespace Braced

/-- Run a counting loop with the loop that `loop` runs. -/
def runForBy (loop : LoopRunner) (host : Host) (line : Nat) (header : ForHeader) (body : Block) :
    Block := fun scope => do
  let scope ←
    if header.init.isEmpty then pure scope
    else do pure (← statements host line header.init scope).scope
  host.record line .loopStart s!"For loop: {String.ofList header.all}" scope
  let guard := if header.test.isEmpty then ['1'] else header.test
  let iteration : Block := fun scope => do
    let flow ← body scope
    flow.andThen fun scope => do
      pure { scope := ← advance host line (splitCommas header.step) scope }
  loop line guard iteration scope

/-- Run a line with the loops that `loop` runs. -/
def runLineBy (loop : LoopRunner) (host : Host) (p : Program) : LineRunner :=
  fun runBlock i scope =>
    match shape (p.line i).text with
    | .whileLoop guard rest => do
      let body := bodyAt p i rest
      host.record i .loopStart s!"While loop: {String.ofList guard}" scope
      pure (body.resume, ← loop i guard (runBody host runBlock body) scope)
    | .forLoop header => do
      let body := bodyAt p i header.rest
      pure (body.resume, ← runForBy loop host i header (runBody host runBlock body) scope)
    | _ => runLine host p runBlock i scope

theorem runLine_eq (host : Host) (p : Program) :
    runLine host p = runLineBy (Loop.run host) host p := by
  funext runBody i scope
  unfold runLineBy
  split
  · rename_i guard rest h
    unfold runLine
    simp only [h]
  · rename_i header h
    unfold runLine
    simp only [h]
    rfl
  · rfl

end Braced

/-- Run a line of a dialect with the loops that `loop` runs. -/
def runLineBy (dialect : Dialect) (loop : LoopRunner) : Semantics :=
  match dialect with
  | .indented => Indented.runLineBy loop
  | .braced => Braced.runLineBy loop

/-- The way a dialect runs a line. -/
def semanticsOf : Dialect → Semantics
  | .indented => Indented.runLine
  | .braced => Braced.runLine

theorem semanticsOf_eq (dialect : Dialect) (host : Host) (p : Program) :
    semanticsOf dialect host p = runLineBy dialect (Loop.run host) host p := by
  cases dialect
  · exact Indented.runLine_eq host p
  · exact Braced.runLine_eq host p

/-- Run a whole program, given how blocks are run. -/
def programBy (dialect : Dialect) (p : Program) (run : Extent → Block) : Run Unit :=
  match dialect with
  | .indented => do
    let first := p.nextCodeLine 0
    let _ ← run ⟨first, p.size, (p.line first).depth⟩ Table.empty
  | .braced => do
    let flow ← run ⟨0, p.size, 0⟩ Table.empty
    match (functionTable .braced p).get? "main" with
    | some main => let _ ← flow.andThen (run main.body)
    | none => pure ()

theorem runProgram_eq (dialect : Dialect) (limits : Limits) (p : Program) :
    runProgram dialect limits p = programBy dialect p (runBlock p
      (semanticsOf dialect (hostOf dialect (semanticsOf dialect) p limits) p) p.size) := by
  cases dialect <;> rfl

theorem traceSteps_eq (dialect : Dialect) (l : Limits) (source : String) :
    traceSteps dialect l source =
      ⟨((runProgram dialect l (layout dialect source.toList)).outcome {}).1.map fun _ =>
          ((runProgram dialect l (layout dialect source.toList)).outcome {}).2.recorder.steps,
        ((runProgram dialect l (layout dialect source.toList)).outcome {}).2.recorder.warnings⟩ :=
  rfl

theorem exists_steps {result : Except Fault (List Step)} {holds : List Step → Bool}
    (h : result.toOption.any holds = true) : ∃ steps, result = .ok steps ∧ holds steps = true := by
  cases result with
  | error fault => cases h
  | ok steps => exact ⟨steps, rfl, h⟩

section Progress

variable (p : Program) {loop : LoopRunner} {host : Host} {runBody : Extent → Block} {i next : Nat}
  {scope : Scope} {flow : Flow}

/-- A line goes on behind its body, at the next line, or where its chain of branches does. -/
theorem Indented.runLineBy_next {P : Extent → Prop} {Q : Nat → Prop} (hstop : Q (p.body i).stop)
    (hsucc : Q (i + 1)) (hchain : (chainAt p i).All P Q)
    (h : Returns (Indented.runLineBy loop host p runBody i scope) (next, flow)) : Q next := by
  unfold runLineBy at h
  split at h
  · obtain ⟨_, -, h⟩ := h.of_bind
    obtain ⟨_, -, h⟩ := h.of_bind
    cases h.of_pure
    exact hstop
  · unfold runLine at h
    dsimp only at h
    split at h
    · obtain ⟨_, -, h⟩ := h.of_bind
      cases h.of_pure
      exact hstop
    · exact hchain.resume h
    · cases h.of_pure
      exact hstop
    · obtain ⟨_, -, h⟩ := h.of_bind
      obtain ⟨_, -, h⟩ := h.of_bind
      cases h.of_pure
      exact hstop
    · obtain ⟨_, -, h⟩ := h.of_bind
      obtain ⟨_, -, h⟩ := h.of_bind
      obtain ⟨_, -, h⟩ := h.of_bind
      obtain ⟨_, -, h⟩ := h.of_bind
      cases h.of_pure
      exact hstop
    · obtain ⟨_, -, h⟩ := h.of_bind
      cases h.of_pure
      exact hsucc
    · obtain ⟨_, -, h⟩ := h.of_bind
      cases h.of_pure
      exact hsucc

theorem Indented.runLineBy_progress (hi : i < p.size)
    (h : Returns (Indented.runLineBy loop host p runBody i scope) (next, flow)) :
    i < next ∧ next ≤ p.size :=
  runLineBy_next p ⟨p.body_stop i, p.body_stop_le hi⟩ ⟨Nat.lt_succ_self i, hi⟩
    (chainAt_all p hi) h

theorem Braced.define_progress {header : FunctionHeader} (hi : i < p.size)
    (h : Returns (Braced.define host p i header scope) next) : i < next ∧ next ≤ p.size := by
  have hb : i < p.blockEnd (i + 1) ((p.line i).depth + 1) := p.le_blockEnd (i + 1) _
  unfold define at h
  split_ifs at h
  · cases h.of_pure
    exact ⟨Nat.lt_succ_self i, hi⟩
  · obtain ⟨_, -, h⟩ := h.of_bind
    cases h.of_pure
    exact ⟨hb, p.blockEnd_le _ hi⟩
  · cases h.of_pure
    exact ⟨hb, p.blockEnd_le _ hi⟩

/-- The program goes on at a later line, or at its end. -/
theorem Braced.runLineBy_progress (hi : i < p.size)
    (h : Returns (Braced.runLineBy loop host p runBody i scope) (next, flow)) :
    i < next ∧ next ≤ p.size := by
  unfold runLineBy at h
  split at h
  · obtain ⟨_, -, h⟩ := h.of_bind
    obtain ⟨_, -, h⟩ := h.of_bind
    cases h.of_pure
    exact bodyAt_resume p hi _
  · obtain ⟨_, -, h⟩ := h.of_bind
    cases h.of_pure
    exact bodyAt_resume p hi _
  · unfold runLine at h
    dsimp only at h
    split at h
    · obtain ⟨j, hd, h⟩ := h.of_bind
      cases h.of_pure
      exact define_progress p hi hd
    · exact (chainAt_below p hi).resume h
    · cases h.of_pure
      exact bodyAt_resume p hi _
    · obtain ⟨_, -, h⟩ := h.of_bind
      obtain ⟨_, -, h⟩ := h.of_bind
      cases h.of_pure
      exact bodyAt_resume p hi _
    · obtain ⟨_, -, h⟩ := h.of_bind
      cases h.of_pure
      exact bodyAt_resume p hi _
    · obtain ⟨_, -, h⟩ := h.of_bind
      cases h.of_pure
      exact ⟨Nat.lt_succ_self i, hi⟩

/-- A line of the program hands back a later line of it, or its end. -/
theorem runLineBy_progress {dialect : Dialect} (hi : i < p.size)
    (h : Returns (runLineBy dialect loop host p runBody i scope) (next, flow)) :
    i < next ∧ next ≤ p.size := by
  cases dialect
  · exact Indented.runLineBy_progress p hi h
  · exact Braced.runLineBy_progress p hi h

end Progress

namespace Loop

variable (host : Host) (line : Nat) (guard : List Char) (body : Block)

theorem whileTrue_at_cap {iteration : Nat} (hi : host.limits.maxLoopIterations ≤ iteration)
    (cost : Nat) (scope : Scope) : ∀ more : Nat,
    whileTrue host line guard body more iteration cost scope =
      whileTrue host line guard body 0 iteration cost scope
  | 0 => rfl
  | more + 1 => by
    refine Run.ext_outcome fun m => ?_
    have hc := Record.outcome_continueLoop host.limits line iteration cost m
    rw [if_pos hi] at hc
    rw [whileTrue, whileTrue, Run.outcome_bind_ok hc, Run.outcome_bind_ok hc]
    rfl

/-- A loop is the same whatever bound it is given, as long as the bound is not below the iteration
cap. -/
theorem whileTrue_eq : ∀ (more more' iteration : Nat),
    host.limits.maxLoopIterations ≤ (iteration + more : Nat) →
    host.limits.maxLoopIterations ≤ (iteration + more' : Nat) → ∀ cost scope,
      whileTrue host line guard body more iteration cost scope =
        whileTrue host line guard body more' iteration cost scope
  | 0, more', _, h, _, cost, scope =>
    (whileTrue_at_cap host line guard body h cost scope more').symm
  | more, 0, _, _, h', cost, scope => whileTrue_at_cap host line guard body h' cost scope more
  | more + 1, more' + 1, iteration, h, h', cost, scope => by
    have ih : ∀ cost, whileTrue host line guard body more (iteration + 1) cost =
        whileTrue host line guard body more' (iteration + 1) cost := fun cost =>
      funext fun scope => whileTrue_eq more more' (iteration + 1) (by omega) (by omega) cost scope
    rw [whileTrue, whileTrue]
    simp only [ih]

end Loop

namespace Likeness

variable {l l' : Limits} {A : Likeness l l'} {h h' : Host}

section Chains

variable {β : Type} {runBody runBody' : β → Block}
  {runMalformed runMalformed' : Nat → List Char → Block}

theorem chain (hsame : ∀ i : Nat, A.Lines i i) (H : A.Hosts h h') {P : β → Prop} {Q : Nat → Prop}
    (hb : ∀ body, P body → ∀ scope, A.Rel (runBody body scope) (runBody' body scope))
    (hm : ∀ line text scope, A.Rel (runMalformed line text scope) (runMalformed' line text scope)) :
    ∀ {c : Chain β} (scope : Scope), c.All P Q →
      A.Rel (c.run h runBody runMalformed scope) (c.run h' runBody' runMalformed' scope)
  | .guarded line guard body resume rest, scope, ⟨hbody, _, hrest⟩ => by
    refine A.bind (evaluateText H scope guard) fun v => A.bind (A.quiet (.isTrue v)) fun b => ?_
    cases b with
    | true => exact A.bind (record H (hsame line) _ _ scope) fun _ =>
        A.bind (hb body hbody scope) fun _ => A.value _
    | false =>
      exact A.bind (record H (hsame line) _ _ scope) fun _ => chain hsame H hb hm scope hrest
  | .otherwise body resume, scope, ⟨hbody, _⟩ => A.bind (hb body hbody scope) fun _ => A.value _
  | .malformed line text, scope, _ => A.bind (hm line text scope) fun _ => A.value _
  | .done resume, scope, _ => A.value _

end Chains

section Loops

variable {body body' : Block}

theorem forEach (H : A.Hosts h h') {line line' : Nat} (hline : A.Lines line line') (name : String)
    (hb : ∀ scope, A.Rel (body scope) (body' scope)) :
    ∀ (items : List Value) (iteration cost : Nat) (scope : Scope),
      A.Rel (Loop.forEach h line name body items iteration cost scope)
        (Loop.forEach h' line' name body' items iteration cost scope)
  | [], _, _, _ => A.value _
  | item :: items, iteration, cost, scope => by
    rw [Loop.forEach, Loop.forEach, H.limits, H.limits']
    refine A.bind (A.continueLoop hline _ _) fun b => ?_
    cases b with
    | false => exact A.value _
    | true =>
      exact A.bind (A.quiet .stepCount) fun _ => A.bind (describe H item) fun _ =>
        A.bind (record H hline _ _ _) fun _ => A.bind (hb _) fun flow =>
          A.bind (A.quiet .stepCount) fun _ => andThen flow (forEach H hline name hb items _ _)

theorem whileTrue (H : A.Hosts h h') {line line' : Nat} (hline : A.Lines line line')
    (guard : List Char) (hb : ∀ scope, A.Rel (body scope) (body' scope)) :
    ∀ (more iteration cost : Nat) (scope : Scope),
      A.Rel (Loop.whileTrue h line guard body more iteration cost scope)
        (Loop.whileTrue h' line' guard body' more iteration cost scope)
  | 0, _, _, _ => by
    rw [Loop.whileTrue, Loop.whileTrue, H.limits, H.limits']
    exact A.bind (A.continueLoop hline _ _) fun _ => A.value _
  | more + 1, iteration, cost, scope => by
    rw [Loop.whileTrue, Loop.whileTrue, H.limits, H.limits']
    refine A.bind (A.continueLoop hline _ _) fun b => ?_
    cases b with
    | false => exact A.value _
    | true =>
      refine A.bind (evaluateText H scope guard) fun v => A.bind (A.quiet (.isTrue v)) fun t => ?_
      cases t with
      | false => exact A.bind (record H hline _ _ scope) fun _ => A.value _
      | true =>
        exact A.bind (A.quiet .stepCount) fun _ => A.bind (record H hline _ _ scope) fun _ =>
          A.bind (hb scope) fun flow => A.bind (A.quiet .stepCount) fun _ =>
            andThen flow (whileTrue H hline guard hb more _ _)

end Loops

section Lines

variable {p : Program} {loop loop' : LoopRunner} {runBlock runBlock' : Extent → Block} {i : Nat}

/-- Ways to run loops that do alike things with alike bodies. -/
def Loops (A : Likeness l l') (loop loop' : LoopRunner) : Prop :=
  ∀ {line line' : Nat}, A.Lines line line' → ∀ (guard : List Char) (body body' : Block),
    (∀ scope, A.Rel (body scope) (body' scope)) →
      ∀ scope, A.Rel (loop line guard body scope) (loop' line' guard body' scope)

/-- Ways to run blocks that are alike on the blocks below a line. -/
def BlocksBelow (A : Likeness l l') (p : Program) (i : Nat) (runBlock runBlock' : Extent → Block) :
    Prop :=
  ∀ extent : Extent, i < extent.start → extent.stop ≤ p.size →
    ∀ scope, A.Rel (runBlock extent scope) (runBlock' extent scope)

/-- The loops of alike hosts are alike if they have the same iteration cap. -/
theorem loops_run (H : A.Hosts h h') (hcap : l'.maxLoopIterations = l.maxLoopIterations) :
    A.Loops (Loop.run h) (Loop.run h') := by
  intro line line' hline guard body body' hb scope
  unfold Loop.run
  rw [H.limits, H.limits', hcap]
  exact whileTrue H hline guard hb _ 0 1 scope

variable (hsame : ∀ i : Nat, A.Lines i i)
include hsame

theorem indentedLine (H : A.Hosts h h') (hl : A.Loops loop loop')
    (hb : A.BlocksBelow p i runBlock runBlock') (hi : i < p.size) (scope : Scope) :
    A.Rel (Indented.runLineBy loop h p runBlock i scope)
      (Indented.runLineBy loop' h' p runBlock' i scope) := by
  have hbody := hb (p.body i) (Nat.lt_succ_self i) (p.body_stop_le hi)
  unfold Indented.runLineBy
  split
  · exact A.bind (record H (hsame i) _ _ scope) fun _ =>
      A.bind (hl (hsame i) _ _ _ hbody scope) fun _ => A.value _
  · rename_i hne
    unfold Indented.runLine
    dsimp only
    split
    · exact A.bind (record H (hsame i) _ _ scope) fun _ => A.value _
    · exact chain hsame H (fun extent he => hb extent he.1 he.2) (fun _ _ _ => A.fault _) scope
        (Indented.chainAt_all p hi)
    · exact A.value _
    · exact (hne _ ‹_›).elim
    · exact A.bind (evaluateText H scope _) fun _ => A.bind (record H (hsame i) _ _ scope) fun _ =>
        A.withHeap (fun _ => rfl) (fun _ => rfl) fun _ =>
          A.bind (forEach H (hsame i) _ hbody _ 0 1 scope) fun _ => A.value _
    · exact A.bind (giveBack H (hsame i) _ scope) fun _ => A.value _
    · exact A.bind (simple H (hsame i) _ scope) fun _ => A.value _

theorem runBody (H : A.Hosts h h') (hb : A.BlocksBelow p i runBlock runBlock') {body : Braced.Body}
    (hbody : body.Below i ∧ body.resume ≤ p.size) (scope : Scope) :
    A.Rel (Braced.runBody h runBlock body scope) (Braced.runBody h' runBlock' body scope) := by
  cases body with
  | lines extent => exact hb extent hbody.1 hbody.2 scope
  | inline header texts => exact inTurn (statements H (hsame header)) texts scope

omit hsame in
theorem runForBy (H : A.Hosts h h') (hl : A.Loops loop loop') {line line' : Nat}
    (hline : A.Lines line line') (header : Braced.ForHeader) {body body' : Block}
    (hb : ∀ scope, A.Rel (body scope) (body' scope)) (scope : Scope) :
    A.Rel (Braced.runForBy loop h line header body scope)
      (Braced.runForBy loop' h' line' header body' scope) := by
  have iteration : ∀ scope, A.Rel
      (do let flow ← body scope
          flow.andThen fun scope => do
            pure { scope := ← Braced.advance h line (splitCommas header.step) scope : Flow })
      (do let flow ← body' scope
          flow.andThen fun scope => do
            pure { scope := ← Braced.advance h' line' (splitCommas header.step) scope : Flow }) :=
    fun scope => A.bind (hb scope) fun flow => andThen flow fun scope =>
      A.bind (advance H hline _ scope) fun _ => A.value _
  unfold Braced.runForBy
  dsimp only
  generalize (if header.test.isEmpty = true then ['1'] else header.test) = guard
  split_ifs
  · exact A.bind (A.value _) fun scope => A.bind (record H hline _ _ scope) fun _ =>
      hl hline guard _ _ iteration scope
  · exact A.bind (statements H hline _ scope) fun _ => A.bind (A.value _) fun scope =>
      A.bind (record H hline _ _ scope) fun _ => hl hline guard _ _ iteration scope

theorem bracedLine (H : A.Hosts h h') (hl : A.Loops loop loop')
    (hb : A.BlocksBelow p i runBlock runBlock') (hi : i < p.size) (scope : Scope) :
    A.Rel (Braced.runLineBy loop h p runBlock i scope)
      (Braced.runLineBy loop' h' p runBlock' i scope) := by
  have hbody := fun rest => runBody hsame H hb (Braced.bodyAt_below p hi rest)
  unfold Braced.runLineBy
  split
  · exact A.bind (record H (hsame i) _ _ scope) fun _ =>
      A.bind (hl (hsame i) _ _ _ (hbody _) scope) fun _ => A.value _
  · exact A.bind (runForBy H hl (hsame i) _ (hbody _) scope) fun _ => A.value _
  · rename_i hwhile hfor
    unfold Braced.runLine
    dsimp only
    split
    · refine A.bind ?_ fun _ => A.value _
      unfold Braced.define
      split_ifs
      · exact A.value _
      · exact A.bind (record H (hsame i) _ _ scope) fun _ => A.value _
      · exact A.value _
    · exact chain hsame H (fun body hbody => runBody hsame H hb hbody)
        (fun line => statements H (hsame line)) scope
        (Braced.chainAt_below p hi)
    · exact A.value _
    · exact (hwhile _ _ ‹_›).elim
    · exact (hfor _ ‹_›).elim
    · exact A.bind (statements H (hsame i) _ scope) fun _ => A.value _

/-- A line does alike things with alike hosts, loops and blocks below it. -/
theorem runLineBy (dialect : Dialect) (H : A.Hosts h h') (hl : A.Loops loop loop')
    (hb : A.BlocksBelow p i runBlock runBlock') (hi : i < p.size) (scope : Scope) :
    A.Rel (Stepwise.runLineBy dialect loop h p runBlock i scope)
      (Stepwise.runLineBy dialect loop' h' p runBlock' i scope) := by
  cases dialect
  · exact indentedLine hsame H hl hb hi scope
  · exact bracedLine hsame H hl hb hi scope

omit hsame in
/-- Blocks are alike as soon as their lines are, given alike blocks below them. -/
theorem blockOf {runLine runLine' : LineRunner}
    (hline : ∀ {runBlock runBlock' : Extent → Block} {i : Nat},
      A.BlocksBelow p i runBlock runBlock' → i < p.size → ∀ scope,
        A.Rel (runLine runBlock i scope) (runLine' runBlock' i scope)) :
    ∀ (fuel : Nat) {extent : Extent}, extent.stop ≤ p.size → ∀ scope : Scope,
      A.Rel (Stepwise.runBlock p runLine fuel extent scope)
        (Stepwise.runBlock p runLine' fuel extent scope)
  | 0, _, _, _ => A.value _
  | fuel + 1, extent, hs, scope => by
    rw [Stepwise.runBlock, Stepwise.runBlock]
    dsimp only
    split_ifs with hc
    · have hi : p.nextStatement extent.start extent.depth < p.size := by omega
      exact A.bind (hline (fun _ _ he => blockOf hline fuel he) hi scope)
        fun r => andThen r.2 (blockOf hline fuel hs)
    · exact A.value _

theorem blockBy (dialect : Dialect) (H : A.Hosts h h') (hl : A.Loops loop loop') (fuel : Nat)
    {extent : Extent} (hs : extent.stop ≤ p.size) (scope : Scope) :
    A.Rel (Stepwise.runBlock p (Stepwise.runLineBy dialect loop h p) fuel extent scope)
      (Stepwise.runBlock p (Stepwise.runLineBy dialect loop' h' p) fuel extent scope) :=
  blockOf (runLineBy hsame dialect H hl) fuel hs scope

/-- Blocks run by alike hosts are alike. -/
theorem block (dialect : Dialect) (H : A.Hosts h h') (hl : A.Loops (Loop.run h) (Loop.run h'))
    (fuel : Nat) {extent : Extent} (hs : extent.stop ≤ p.size) (scope : Scope) :
    A.Rel (Stepwise.runBlock p (semanticsOf dialect h p) fuel extent scope)
      (Stepwise.runBlock p (semanticsOf dialect h' p) fuel extent scope) := by
  rw [semanticsOf_eq, semanticsOf_eq]
  exact blockBy hsame dialect H hl fuel hs scope

end Lines

/-- Programs run alike as soon as blocks do. -/
theorem programBy (dialect : Dialect) {p : Program} (hp : p.Numbered) {run run' : Extent → Block}
    (hb : ∀ extent : Extent, extent.stop ≤ p.size → ∀ scope,
      A.Rel (run extent scope) (run' extent scope)) :
    A.Rel (Stepwise.programBy dialect p run) (Stepwise.programBy dialect p run') := by
  cases dialect with
  | indented => exact A.bind (hb _ (Nat.le_refl _) _) fun _ => A.value _
  | braced =>
    refine A.bind (hb _ (Nat.le_refl _) _) fun flow => ?_
    split
    · rename_i main hmain
      exact A.bind (andThen flow (hb _ (functionTable_stop_le hp hmain))) fun _ => A.value _
    · exact A.value _

/-- Functions are entered alike as soon as the recorder enters them alike. -/
theorem enterFunction {dialect : Dialect} {functions : FunctionTable} {name : String}
    {args : List Value} {body body' : FunctionDef → Scope → Run Value}
    (hc : l'.maxCallsPerExpression = l.maxCallsPerExpression)
    (he : ∀ f, functions.get? name = some f → ∀ explanation,
      A.Rel (Record.enter l f.name f.params f.headerLine args explanation (body f))
        (Record.enter l' f.name f.params f.headerLine args explanation (body' f))) :
    A.Rel (Stepwise.enterFunction dialect functions l body name args)
      (Stepwise.enterFunction dialect functions l' body' name args) := by
  unfold Stepwise.enterFunction
  cases hf : functions.get? name with
  | none => exact A.fault _
  | some f =>
    have H : A.Hosts ⟨dialect, l, fun _ _ => throw .undefined⟩
        ⟨dialect, l', fun _ _ => throw .undefined⟩ := ⟨rfl, rfl, rfl, hc, fun _ _ => A.fault _⟩
    exact A.bind (describeAll H args) fun _ => he f hf _

end Likeness

end Stepwise
