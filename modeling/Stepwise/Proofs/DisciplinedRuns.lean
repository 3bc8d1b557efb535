import Stepwise.Proofs.RegimeRuns

/-!
# Runs keep to a discipline

A discipline asks for nothing of values and lines, so it is a regime (`Discipline.regime`), and the
steps of a whole run keep to every discipline (`Discipline.steps_kept`).
-/

namespace Stepwise

open Source Run

namespace Discipline

variable {dialect : Dialect} {p : Program} {D : Discipline dialect p}

variable (D) in
/-- The discipline as a regime. A run that is given up leaves the steps as an expression does. -/
def regime (limits : Limits) : Regime dialect p limits where
  values := .any dialect
  region := fun _ => .everywhere dialect p
  Busy := fun r => D.Busy r.frames r.log
  Calm := fun r => D.Calm r.frames r.log
  Over := fun r => D.Over r.frames r.log
  Wrecked := fun r => D.Busy r.frames r.log
  busy_of_calm := D.busy_of_calm
  wrecked_of_busy := id
  write := fun _ _ => id
  warn := fun _ => id
  count := id
  calm_step := fun _ _ h hkind _ _ _ =>
    D.calm_step _ h rfl (StepKind.isInner_iff.1 hkind).1 (StepKind.isInner_iff.1 hkind).2
  over_return := fun _ h _ _ _ => D.over_return _ h rfl rfl
  calm_call := fun _ h hf _ _ _ => D.calm_call _ _ h hf rfl rfl rfl rfl rfl
  call_block := fun _ _ => trivial
  busy_pop := fun hr h => by
    simp only [Recorder.pop, hr, List.tail_cons] at h ⊢
    exact D.busy_of_inner h
  over_pop := fun hr h => by
    simp only [Recorder.pop, hr, List.tail_cons] at h ⊢
    exact D.busy_of_over h
  wrecked_pop := fun hr h => by
    simp only [Recorder.pop, hr, List.tail_cons] at h ⊢
    exact D.busy_of_inner h

variable (D) in
/-- The discipline copes with the headers of the counting loops of the program. -/
def PassesHeaders : Prop :=
  (∀ frames log, D.Over frames log → D.Calm frames log) ∨ (dialect = .braced → Braced.ReturnFree p)

/-- A run that starts calm ends calm or over, or with a fault that can end a run. -/
theorem program (hD : D.PassesHeaders) (limits : Limits) :
    D.Holds (Fatal dialect p) D.Calm (runProgram dialect limits p)
      fun _ frames log => D.Calm frames log ∨ D.Over frames log := by
  intro m hm
  have hG : (D.regime limits).PassesHeaders := hD.imp (fun h r => h _ _) id
  have hstart : (D.regime limits).Starts m.recorder.frames := by
    cases dialect
    · trivial
    · exact ⟨trivial, fun _ _ => trivial⟩
  have hends := Regime.program hG hstart m rfl trivial hm
  rcases hr : (runProgram dialect limits p).outcome m with ⟨fault | _, m'⟩ <;> rw [hr] at hends
  · obtain ⟨hframes, -, hfatal, hleft⟩ := hends
    have hbusy : D.Busy m'.recorder.frames m'.recorder.log := Regime.wrecked_of_left hleft
    exact ⟨hframes, hfatal, hframes ▸ hbusy⟩
  · obtain ⟨hframes, -, -, hreturned⟩ := hends
    have hkept : D.Calm m'.recorder.frames m'.recorder.log ∨
        D.Over m'.recorder.frames m'.recorder.log := hreturned
    exact ⟨hframes, hframes ▸ hkept⟩

section Traces

variable {limits : Limits} {source : String}
  {D : Discipline dialect (layout dialect source.toList)}

/-- The steps of a run keep to a discipline from its start to its end. -/
theorem steps_kept (hD : D.PassesHeaders) (start : D.Calm [] []) {steps : List Step}
    (h : (traceSteps dialect limits source).result = .ok steps) :
    D.Calm [] steps.reverse ∨ D.Over [] steps.reverse := by
  have hends := program hD limits {} start
  rw [traceSteps_eq] at h
  rcases hr : (runProgram dialect limits (layout dialect source.toList)).outcome {}
    with ⟨fault | _, m⟩ <;> rw [hr] at h hends
  · cases h
  · cases h
    rw [Recorder.steps, List.reverse_reverse]
    exact hends.2

end Traces

end Discipline

end Stepwise
