import Stepwise.Proofs.LineRuns

/-!
# Limits are transparent until they bite

A run that stays within its limits is not changed by larger ones. The two runs are compared
computation by computation: `Agrees x y` says that `x` never takes a warning back, and that `y` does
the same as `x` wherever `x` ends without a warning and without a fault that cannot be recovered
from. Every place where a limit is consulted either warns or gives such a fault, so `Agrees` is a
likeness (`agreement`), and it goes through calls and loops.
-/

namespace Stepwise

open Source Run

/-- The second limits allow at least as much as the first, and as many calls in one expression. -/
structure Limits.Within (l l' : Limits) : Prop where
  steps : l.maxSteps ≤ l'.maxSteps
  iterations : l.maxLoopIterations ≤ l'.maxLoopIterations
  callDepth : l.maxCallDepth ≤ l'.maxCallDepth
  callsPerExpression : l'.maxCallsPerExpression = l.maxCallsPerExpression

variable {α β : Type}

/-- An outcome without warnings and without a fault that ends the run. -/
def Unhindered (r : Except Fault α × Machine) : Prop :=
  r.2.recorder.warned = [] ∧ ∀ fault, r.1 = .error fault → fault.isRecoverable = true

/-- The first computation keeps all warnings, and the second one does the same as the first where
that ends unhindered. -/
def Agrees (x y : Run α) : Prop :=
  ∀ m, m.recorder.warned <:+ (x.outcome m).2.recorder.warned
    ∧ (Unhindered (x.outcome m) → y.outcome m = x.outcome m)

namespace Agrees

theorem of_quiet {x : Run α} (h : Quiet x) : Agrees x x := fun m =>
  ⟨(h m).warned ▸ List.suffix_rfl, fun _ => rfl⟩

theorem of_throw {fault : Fault} (h : fault.isRecoverable = false) (y : Run α) :
    Agrees (throw fault) y := fun m =>
  ⟨List.suffix_rfl, fun hu => by cases (hu.2 fault rfl).symm.trans h⟩

theorem bind {x y : Run α} {f g : α → Run β} (h : Agrees x y)
    (hf : ∀ a, Returns x a → Agrees (f a) (g a)) : Agrees (x >>= f) (y >>= g) := by
  intro m
  obtain ⟨hw, hy⟩ := h m
  rcases hx : x.outcome m with ⟨fault | a, m₁⟩ <;> rw [hx] at hw hy
  · rw [outcome_bind_error hx]
    refine ⟨hw, fun hu => outcome_bind_error (hy ⟨hu.1, fun f hf => hu.2 f ?_⟩) g⟩
    cases hf
    rfl
  · obtain ⟨hw', hg⟩ := hf a ⟨m, m₁, hx⟩ m₁
    rw [outcome_bind_ok hx]
    refine ⟨hw.trans hw', fun hu => ?_⟩
    have hm₁ : m₁.recorder.warned = [] := List.suffix_nil.1 (hu.1 ▸ hw')
    rw [outcome_bind_ok (hy ⟨hm₁, fun _ h => by cases h⟩)]
    exact hg hu

theorem recover {x y : Run Value} (h : Agrees x y) : Agrees (Run.recover x) (Run.recover y) := by
  intro m
  obtain ⟨hw, hy⟩ := h m
  rw [outcome_recover, outcome_recover]
  rcases hx : x.outcome m with ⟨fault | v, m₁⟩ <;> rw [hx] at hw hy
  · refine ⟨hw, fun hu => ?_⟩
    by_cases hf : fault.isRecoverable = true
    · rw [hy ⟨hu.1, fun _ h => by cases h; exact hf⟩]
    · simp only [hf, Bool.false_eq_true, if_false] at hu
      exact absurd (hu.2 fault rfl) hf
  · exact ⟨hw, fun hu => by rw [hy hu]⟩

variable {l l' : Limits} (hl : l.Within l')
include hl

theorem step (line : Int) (kind : StepKind) (explanation : Text) (scope : Scope) :
    Agrees (Record.step l line kind explanation scope)
      (Record.step l' line kind explanation scope) := by
  have hs := hl.steps
  intro m
  rw [Record.outcome_step, Record.outcome_step]
  by_cases h : l.maxSteps < (m.recorder.stepCount + 1 : Nat)
  · rw [if_pos h]
    exact ⟨List.suffix_rfl, fun hu => by cases hu.2 _ rfl⟩
  · rw [if_neg h, if_neg (by omega)]
    refine ⟨?_, fun _ => rfl⟩
    cases m.heap.snapshotScope scope <;> exact List.suffix_rfl

/-- A loop that goes on under lower limits goes on under higher ones. -/
theorem continueLoop (line iteration cost : Int) :
    Agrees (Record.continueLoop l line iteration cost)
      (Record.continueLoop l' line iteration cost) := by
  have hs := hl.steps
  have hi := hl.iterations
  intro m
  rw [Record.outcome_continueLoop, Record.outcome_continueLoop]
  by_cases h1 : l.maxLoopIterations ≤ iteration
  · rw [if_pos h1]
    exact ⟨List.suffix_cons _ _, fun hu => by cases hu.1⟩
  · by_cases h2 : l.maxSteps - m.recorder.stepCount ≤ cost
    · rw [if_neg h1, if_pos h2]
      exact ⟨List.suffix_cons _ _, fun hu => by cases hu.1⟩
    · rw [if_neg h1, if_neg h2, if_neg (by omega), if_neg (by omega)]
      exact ⟨List.suffix_rfl, fun _ => rfl⟩

/-- A call that is not too deep under lower limits is not under higher ones. -/
theorem enter (function : String) (params : List String) (line : Int) (args : List Value)
    (explanation : Text) {body body' : Scope → Run α}
    (hb : ∀ scope, Agrees (body scope) (body' scope)) :
    Agrees (Record.enter l function params line args explanation body)
      (Record.enter l' function params line args explanation body') := by
  have hd := hl.callDepth
  intro m
  rw [Record.outcome_enter, Record.outcome_enter]
  by_cases h : l.maxCallDepth ≤ m.recorder.frames.length
  · rw [if_pos h]
    exact ⟨List.suffix_rfl, fun hu => by cases hu.2 _ rfl⟩
  rw [if_neg h, if_neg (by omega)]
  cases m.heap.snapshotScope (Record.bindParams params args) with
  | error fault => exact ⟨List.suffix_rfl, fun _ => rfl⟩
  | ok shown =>
    obtain ⟨hw, hy⟩ := (step hl line .functionCall explanation (Record.bindParams params args)).bind
      (fun _ _ => hb (Record.bindParams params args)) (m.push ⟨function, shown⟩)
    dsimp only
    rcases hx : (Record.step l line .functionCall explanation (Record.bindParams params args) >>=
        fun _ => body (Record.bindParams params args)).outcome (m.push ⟨function, shown⟩)
      with ⟨fault | a, m₁⟩ <;> rw [hx] at hw hy
    · refine ⟨hw, fun hu => ?_⟩
      have hf := hu.2 _ rfl
      split_ifs at hf with hb
      · cases hf
      · rw [hy ⟨hu.1, fun _ h => by cases h; exact hf⟩]
    · exact ⟨hw, fun hu => by rw [hy ⟨hu.1, fun _ h => by cases h⟩]⟩

end Agrees

variable {l l' : Limits}

/-- Agreement is a likeness of runs with limits of which the second are the larger ones. -/
def agreement (hl : l.Within l') : Likeness l l' where
  Lines := Eq
  Rel := Agrees
  bindReturned := Agrees.bind
  quiet := fun h => .of_quiet h.quiet
  recover := Agrees.recover
  step := fun h => h ▸ Agrees.step hl _
  continueLoop := fun h => h ▸ Agrees.continueLoop hl _

section Runs

variable (hl : l.Within l') {dialect : Dialect} {p : Program}
include hl

/-- Loops agree: the bound that comes from the larger limits does for both. -/
theorem loops_agree {h h' : Host} (H : (agreement hl).Hosts h h') :
    (agreement hl).Loops (Loop.run h) (Loop.run h') := by
  intro line line' hline guard body body' hb scope
  have hi := hl.iterations
  unfold Loop.run
  rw [Loop.whileTrue_eq h line guard body _ h'.limits.maxLoopIterations.toNat 0
    (by rw [H.limits]; omega) (by rw [H.limits, H.limits']; omega)]
  exact Likeness.whileTrue H hline guard hb _ 0 1 scope

/-- Calls under higher limits do what they do under lower ones that do not hinder them. -/
theorem calls_agree (hp : p.Numbered) : ∀ {room room' : Nat}, room ≤ room' →
    ∀ (name : String) (args : List Value),
      Agrees
        (callFunction dialect (semanticsOf dialect) p (functionTable dialect p) l room name args)
        (callFunction dialect (semanticsOf dialect) p (functionTable dialect p) l' room' name args)
  | 0, 0, _, _, _ | 0, _ + 1, _, _, _ =>
    (agreement hl).enterFunction hl.callsPerExpression fun _ _ _ =>
      Agrees.enter hl _ _ _ _ _ fun _ => .of_throw rfl _
  | room + 1, room' + 1, hr, name, args => by
    have H : (agreement hl).Hosts
        ⟨dialect, l, callFunction dialect (semanticsOf dialect) p (functionTable dialect p) l room⟩
        ⟨dialect, l', callFunction dialect (semanticsOf dialect) p (functionTable dialect p) l'
          room'⟩ :=
      ⟨rfl, rfl, rfl, hl.callsPerExpression, calls_agree hp (Nat.le_of_succ_le_succ hr)⟩
    refine (agreement hl).enterFunction hl.callsPerExpression fun f hf _ =>
      Agrees.enter hl _ _ _ _ _ fun scope => ?_
    exact (agreement hl).bind
      (Likeness.block (fun _ => rfl) dialect H (loops_agree hl H) p.size
        (functionTable_stop_le hp hf) scope)
      fun _ => (agreement hl).value _

variable (dialect)

theorem hosts_agree (hp : p.Numbered) :
    (agreement hl).Hosts (hostOf dialect (semanticsOf dialect) p l)
      (hostOf dialect (semanticsOf dialect) p l') :=
  ⟨rfl, rfl, rfl, hl.callsPerExpression,
    calls_agree hl hp (Int.toNat_le_toNat hl.callDepth)⟩

theorem runProgram_agrees (hp : p.Numbered) :
    Agrees (runProgram dialect l p) (runProgram dialect l' p) := by
  have H := hosts_agree hl dialect hp
  rw [runProgram_eq, runProgram_eq]
  exact (agreement hl).programBy dialect hp fun _ hs scope =>
    Likeness.block (fun _ => rfl) dialect H (loops_agree hl H) p.size hs scope

end Runs

/-- A run that returns its steps without having cut a loop short returns the same steps, and cuts no
loop short either, under limits that allow more. -/
theorem traceSteps_of_larger_limits (dialect : Dialect) (source : String) (l l' : Limits)
    (hsteps : l.maxSteps ≤ l'.maxSteps)
    (hiterations : l.maxLoopIterations ≤ l'.maxLoopIterations)
    (hdepth : l.maxCallDepth ≤ l'.maxCallDepth)
    (hcalls : l'.maxCallsPerExpression = l.maxCallsPerExpression) {steps : List Step}
    (hresult : (traceSteps dialect l source).result = .ok steps)
    (hwarnings : (traceSteps dialect l source).warnings = []) :
    (traceSteps dialect l' source).result = .ok steps ∧
      (traceSteps dialect l' source).warnings = [] := by
  have hl : l.Within l' := ⟨hsteps, hiterations, hdepth, hcalls⟩
  obtain ⟨-, h⟩ := runProgram_agrees hl dialect (layout_numbered dialect source.toList) {}
  rw [traceSteps_eq] at hresult hwarnings ⊢
  rcases hx : (runProgram dialect l (layout dialect source.toList)).outcome {}
    with ⟨fault | _, m⟩ <;> rw [hx] at h hresult hwarnings
  · cases hresult
  · rw [h ⟨List.reverse_eq_nil_iff.1 (List.map_eq_nil_iff.1 hwarnings), fun _ h => by cases h⟩]
    exact ⟨hresult, hwarnings⟩

/-- A call and a loop that use up all of the smaller limits. -/
theorem traceSteps_of_larger_limits_loop :
    let source := "def f(a):\n    return a + 1\nx = f(2)\nwhile x < 4:\n    x = x + 1\n"
    ∃ steps, (traceSteps .indented ⟨10, 2, 1, 1⟩ source).result = .ok steps ∧
      (traceSteps .indented ⟨500, 200, 50, 1⟩ source).result = .ok steps ∧
        (traceSteps .indented ⟨500, 200, 50, 1⟩ source).warnings = [] := by
  intro source
  have hok : (traceSteps .indented ⟨10, 2, 1, 1⟩ source).result.isOk = true := by decide +kernel
  have hwarnings : (traceSteps .indented ⟨10, 2, 1, 1⟩ source).warnings = [] := by decide +kernel
  cases hresult : (traceSteps .indented ⟨10, 2, 1, 1⟩ source).result with
  | error fault =>
    rw [hresult] at hok
    cases hok
  | ok steps =>
    exact ⟨steps, rfl, traceSteps_of_larger_limits .indented source ⟨10, 2, 1, 1⟩ ⟨500, 200, 50, 1⟩
      (by decide) (by decide) (by decide) rfl hresult hwarnings⟩

end Stepwise
