import Stepwise.Proofs.DisciplinedRuns

/-!
# How runs fail

Whatever the source text and the limits are, a run gives its steps or ends with a fatal fault: the
faults of expressions are all recovered from, and what statements do outside of expressions has few
faults of its own. The one fault that is due to the text of a line is that of an `elif` without its
colon.
-/

namespace Stepwise

open Source

/-- No property of the steps at all. -/
def Discipline.unconstrained (dialect : Dialect) (p : Program) : Discipline dialect p where
  Busy := fun _ _ => True
  Calm := fun _ _ => True
  Over := fun _ _ => True
  busy_of_calm := id
  calm_step := fun _ _ _ _ _ => trivial
  over_return := fun _ _ _ _ => trivial
  calm_call := fun _ _ _ _ _ _ _ _ _ => trivial
  busy_of_inner := id
  busy_of_over := id

/-- A run that does not end well ends with a fatal fault. -/
theorem fatal_of_result {dialect : Dialect} {limits : Limits} {source : String} {fault : Fault}
    (h : (traceSteps dialect limits source).result = .error fault) :
    Fatal dialect (layout dialect source.toList) fault := by
  have hends := Discipline.program (D := .unconstrained dialect (layout dialect source.toList))
    (.inl fun _ _ => id) limits {} trivial
  rw [traceSteps_eq] at h
  rcases hr : (runProgram dialect limits (layout dialect source.toList)).outcome {}
    with ⟨fault | _, m⟩ <;> rw [hr] at h hends
  · cases h
    exact hends.2.1
  · cases h

/-- A run of the indented dialect gives its steps, or it is given up for its length or depth, meets
an integer of too many digits or a list that contains itself, or runs out of memory. Only a program
with an `elif` line without a colon can fail in another way, and then in that one. -/
theorem indented_run_result (limits : Limits) (source : String) :
    let result := (traceSteps .indented limits source).result
    (∃ steps, result = .ok steps) ∨ (∃ fault, result = .error fault ∧ fault.isBudget = true) ∨
      result = .error .tooManyDigits ∨ result = .error .bottomless ∨
      result = .error .outOfMemory ∨
      (result = .error .brokenBranch ∧
        Indented.HasBrokenBranch (layout .indented source.toList)) := by
  intro result
  rcases hr : result with fault | steps
  · cases fatal_of_result hr with
    | budget hb => exact .inr (.inl ⟨fault, rfl, hb⟩)
    | tooManyDigits => simp
    | bottomless => simp
    | outOfMemory => simp
    | tooLarge hd => cases hd
    | brokenBranch _ hp => simp [hp]
  · exact .inl ⟨steps, rfl⟩

/-- An `elif` line without a colon ends the run when the branch in front of it is not taken. -/
theorem indented_run_brokenBranch :
    (traceSteps .indented {} "if 0:\n    x = 1\nelif 1").result = .error .brokenBranch := by
  rfl

/-- A run of the braced dialect gives its steps, or it is given up for its length or depth, meets an
integer of too many digits, an integer too large for a float or a list that contains itself, or runs
out of memory. -/
theorem braced_run_result (limits : Limits) (source : String) :
    let result := (traceSteps .braced limits source).result
    (∃ steps, result = .ok steps) ∨ (∃ fault, result = .error fault ∧ fault.isBudget = true) ∨
      result = .error .tooManyDigits ∨ result = .error .tooLarge ∨ result = .error .bottomless ∨
      result = .error .outOfMemory := by
  intro result
  rcases hr : result with fault | steps
  · cases fatal_of_result hr with
    | budget hb => exact .inr (.inl ⟨fault, rfl, hb⟩)
    | tooManyDigits => simp
    | bottomless => simp
    | outOfMemory => simp
    | tooLarge _ => simp
    | brokenBranch hd _ => cases hd
  · exact .inl ⟨steps, rfl⟩

end Stepwise
