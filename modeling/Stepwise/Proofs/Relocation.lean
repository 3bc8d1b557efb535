import Stepwise.Proofs.Likeness

/-!
# The same run on other lines

A program may be moved to other lines without a change of what it does. `Shadows place R x y` says
that `y`, started with steps that show the lines `place` gives, does what `x` does and goes on
showing these lines; their results are related by `R`. For equal results this is a likeness
(`relocation`), because nothing but the recorder looks at a line.
-/

namespace Stepwise

variable {α β γ δ : Type}

def Step.relocate (place : Int → Int) (s : Step) : Step := { s with line := place s.line }

/-- The warning for another line. Warnings count lines from one. -/
def Warning.relocate (place : Int → Int) : Warning → Warning
  | iterationCap line iterations => iterationCap (place (line - 1) + 1) iterations
  | stepReserve line iterations used limit =>
    stepReserve (place (line - 1) + 1) iterations used limit

/-- The machine with its steps and warnings on other lines. -/
def Machine.relocate (place : Int → Int) (m : Machine) : Machine :=
  m.withPast (m.recorder.log.map (Step.relocate place))
    (m.recorder.warned.map (Warning.relocate place))

theorem Machine.relocate_id (m : Machine) : m.relocate id = m := by
  have hstep : Step.relocate id = id := rfl
  have hwarning : Warning.relocate id = id := by
    funext w
    cases w <;> simp [Warning.relocate]
  rw [relocate, hstep, hwarning, List.map_id, List.map_id]
  rfl

/-- The second computation does what the first one does, on other lines. -/
def Shadows (place : Int → Int) (R : α → β → Prop) (x : Run α) (y : Run β) : Prop :=
  ∀ m, (∃ a b m', x.outcome m = (.ok a, m') ∧
      y.outcome (m.relocate place) = (.ok b, m'.relocate place) ∧ R a b) ∨
    ∃ fault m', x.outcome m = (.error fault, m') ∧
      y.outcome (m.relocate place) = (.error fault, m'.relocate place)

namespace Shadows

open Run

variable {place : Int → Int} {R : α → β → Prop} {S : γ → δ → Prop}

theorem pure {a : α} {b : β} (h : R a b) : Shadows place R (pure a) (pure b) :=
  fun m => .inl ⟨a, b, m, rfl, rfl, h⟩

theorem of_unaware {x : Run α} (h : Unaware x) : Shadows place Eq x x := by
  intro m
  have hblind := h.blind m ((x.outcome m).2.recorder.log.map (Step.relocate place))
    ((x.outcome m).2.recorder.warned.map (Warning.relocate place))
  have hm : m.withPast ((x.outcome m).2.recorder.log.map (Step.relocate place))
      ((x.outcome m).2.recorder.warned.map (Warning.relocate place)) = m.relocate place := by
    rw [(h.quiet m).log, (h.quiet m).warned, Machine.relocate]
  rw [hm] at hblind
  change x.outcome (m.relocate place) = ((x.outcome m).1, (x.outcome m).2.relocate place) at hblind
  rcases hx : x.outcome m with ⟨fault | a, m'⟩ <;> rw [hx] at hblind
  · exact .inr ⟨fault, m', rfl, hblind⟩
  · exact .inl ⟨a, a, m', rfl, hblind, rfl⟩

theorem bind {x : Run α} {y : Run β} {f : α → Run γ} {g : β → Run δ} (h : Shadows place R x y)
    (hf : ∀ a b, R a b → Returns x a → Returns y b → Shadows place S (f a) (g b)) :
    Shadows place S (x >>= f) (y >>= g) := by
  intro m
  rcases h m with ⟨a, b, m', hx, hy, hR⟩ | ⟨fault, m', hx, hy⟩
  · rw [outcome_bind_ok hx, outcome_bind_ok hy]
    exact hf a b hR ⟨_, _, hx⟩ ⟨_, _, hy⟩ m'
  · rw [outcome_bind_error hx, outcome_bind_error hy]
    exact .inr ⟨fault, m', rfl, rfl⟩

theorem bindEq {x y : Run α} {f : α → Run γ} {g : α → Run δ} (h : Shadows place Eq x y)
    (hf : ∀ a, Shadows place S (f a) (g a)) : Shadows place S (x >>= f) (y >>= g) :=
  h.bind fun a _ hab _ _ => hab ▸ hf a

theorem get {f : Machine → Run γ} {g : Machine → Run δ}
    (h : ∀ m, Shadows place S (f m) (g (m.relocate place))) :
    Shadows place S (MonadState.get >>= f) (MonadState.get >>= g) := by
  intro m
  rw [outcome_bind_ok (outcome_get m), outcome_bind_ok (outcome_get _)]
  exact h m m

theorem recover {x y : Run Value} (h : Shadows place Eq x y) :
    Shadows place Eq (Run.recover x) (Run.recover y) := by
  intro m
  rcases h m with ⟨a, b, m', hx, hy, rfl⟩ | ⟨fault, m', hx, hy⟩
  · rw [outcome_recover, outcome_recover, hx, hy]
    exact .inl ⟨a, a, m', rfl, rfl, rfl⟩
  · rw [outcome_recover, outcome_recover, hx, hy]
    dsimp only
    split_ifs
    · exact .inl ⟨_, _, m', rfl, rfl, rfl⟩
    · exact .inr ⟨fault, m', rfl, rfl⟩

variable {limits : Limits} {line line' : Int} (hline : place line = line')
include hline

theorem step (kind : StepKind) (explanation : Text) (scope : Scope) :
    Shadows place Eq (Record.step limits line kind explanation scope)
      (Record.step limits line' kind explanation scope) := by
  subst hline
  intro m
  have hcount : (m.relocate place).recorder.stepCount = m.recorder.stepCount := rfl
  have hheap : (m.relocate place).heap = m.heap := rfl
  rw [Record.outcome_step, Record.outcome_step, hcount, hheap]
  split_ifs
  · exact .inr ⟨_, _, rfl, rfl⟩
  · rcases m.heap.snapshotScope scope with fault | bindings
    · exact .inr ⟨_, _, rfl, rfl⟩
    · exact .inl ⟨_, _, _, rfl, rfl, rfl⟩

theorem continueLoop (iteration cost : Int) :
    Shadows place Eq (Record.continueLoop limits line iteration cost)
      (Record.continueLoop limits line' iteration cost) := by
  subst hline
  intro m
  have hcount : (m.relocate place).recorder.stepCount = m.recorder.stepCount := rfl
  have hcap : (m.warn (.iterationCap (line + 1) iteration)).relocate place =
      (m.relocate place).warn (.iterationCap (place line + 1) iteration) := by
    simp [Machine.relocate, Machine.warn, Machine.withPast, Warning.relocate]
  have hreserve (used limit : Int) :
      (m.warn (.stepReserve (line + 1) iteration used limit)).relocate place =
        (m.relocate place).warn (.stepReserve (place line + 1) iteration used limit) := by
    simp [Machine.relocate, Machine.warn, Machine.withPast, Warning.relocate]
  rw [Record.outcome_continueLoop, Record.outcome_continueLoop, hcount, ← hcap, ← hreserve]
  split_ifs <;> exact .inl ⟨_, _, _, rfl, rfl, rfl⟩

theorem enter (function : String) (params : List String) (args : List Value) (explanation : Text)
    {body body' : Scope → Run α} (hbody : ∀ scope, Shadows place Eq (body scope) (body' scope)) :
    Shadows place Eq (Record.enter limits function params line args explanation body)
      (Record.enter limits function params line' args explanation body') := by
  intro m
  have hframes : (m.relocate place).recorder.frames = m.recorder.frames := rfl
  have hheap : (m.relocate place).heap = m.heap := rfl
  rw [Record.outcome_enter, Record.outcome_enter, hframes, hheap]
  split_ifs
  · exact .inr ⟨_, _, rfl, rfl⟩
  · rcases m.heap.snapshotScope (Record.bindParams params args) with fault | shown
    · exact .inr ⟨_, _, rfl, rfl⟩
    · have hrun : Shadows place Eq
          (Record.step limits line .functionCall explanation (Record.bindParams params args) >>=
            fun _ => body (Record.bindParams params args))
          (Record.step limits line' .functionCall explanation (Record.bindParams params args) >>=
            fun _ => body' (Record.bindParams params args)) :=
        (step hline _ _ _).bind fun _ _ _ _ _ => hbody _
      have hpush : (m.push ⟨function, shown⟩).relocate place =
          (m.relocate place).push ⟨function, shown⟩ := rfl
      rcases hrun (m.push ⟨function, shown⟩) with ⟨a, b, m', hx, hy, rfl⟩ | ⟨fault, m', hx, hy⟩ <;>
        rw [hpush] at hy <;> dsimp only <;> rw [hx, hy]
      · exact .inl ⟨_, _, m'.pop, rfl, rfl, rfl⟩
      · exact .inr ⟨_, m'.pop, rfl, rfl⟩

end Shadows

/-- Running on other lines, as a likeness. -/
def relocation (place : Int → Int) (limits : Limits) : Likeness limits limits where
  Lines line line' := place line = line'
  Rel := Shadows place Eq
  bindReturned h hf := h.bind fun a _ hab hx _ => hab ▸ hf a hx
  quiet := .of_unaware
  recover := .recover
  step hline := .step hline
  continueLoop hline := .continueLoop hline

end Stepwise
