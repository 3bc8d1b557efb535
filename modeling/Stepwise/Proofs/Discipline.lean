import Stepwise.Proofs.OperationFaults
import Stepwise.Proofs.Outcome

/-!
# What runs keep to

`Fatal` collects the faults that can end a run of a program. A `Discipline` is a property of the
recorded steps, given the calls under way, in three degrees: `Busy` while an expression is
evaluated, `Calm` between statements, and `Over` when the innermost call has returned. It says how
steps, calls and returns lead from one to the other.

`Discipline.Holds` is the triple of a computation: started with the first property it ends with the
second one, or with a fault of the given sort while busy. It leaves the calls under way as they
were.
-/

namespace Stepwise

open Source Run

variable {α β : Type}

/-- Some `elif` line has no colon, so that its guard cannot be made out. -/
def Indented.HasBrokenBranch (p : Program) : Prop :=
  ∃ l ∈ p.lines, isElif l.text = true ∧ branchGuard? l.text = none

/-- The faults that can end a run. -/
inductive Fatal (dialect : Dialect) (p : Program) : Fault → Prop
  | budget {fault : Fault} : fault.isBudget = true → Fatal dialect p fault
  | tooManyDigits : Fatal dialect p .tooManyDigits
  | bottomless : Fatal dialect p .bottomless
  | outOfMemory : Fatal dialect p .outOfMemory
  | tooLarge : dialect = .braced → Fatal dialect p .tooLarge
  | brokenBranch : dialect = .indented → Indented.HasBrokenBranch p → Fatal dialect p .brokenBranch

/-- The faults of an expression before it is made unknown. -/
def Passing (dialect : Dialect) (p : Program) (fault : Fault) : Prop :=
  fault.isRecoverable = true ∨ Fatal dialect p fault

theorem Fault.OfText.fatal {dialect : Dialect} {p : Program} {fault : Fault} (h : fault.OfText) :
    Fatal dialect p fault := by
  cases h with
  | tooManyDigits => exact .tooManyDigits
  | bottomless => exact .bottomless
  | outOfMemory => exact .outOfMemory

theorem Fault.OfValue.passing {dialect : Dialect} {p : Program} {fault : Fault}
    (h : fault.OfValue) : Passing dialect p fault := by
  cases h with
  | undefined | tooManyDigits | tooLarge => exact .inl rfl
  | bottomless => exact .inr .bottomless
  | outOfMemory => exact .inr .outOfMemory

/-- Steps that neither enter a call nor return from one. -/
def StepKind.isInner : StepKind → Bool
  | functionCall | functionReturn => false
  | _ => true

theorem StepKind.isInner_iff {kind : StepKind} :
    kind.isInner = true ↔ kind ≠ .functionCall ∧ kind ≠ .functionReturn := by
  cases kind <;> simp [isInner]

/-- Properties of the steps, the newest first, given the calls under way, the innermost first. -/
structure Discipline (dialect : Dialect) (p : Program) where
  Busy : List Frame → List Step → Prop
  Calm : List Frame → List Step → Prop
  Over : List Frame → List Step → Prop
  busy_of_calm : ∀ {frames log}, Calm frames log → Busy frames log
  calm_step : ∀ {frames log} (s : Step), Busy frames log → s.callStack = frames.reverse →
    s.kind ≠ .functionCall → s.kind ≠ .functionReturn → Calm frames (s :: log)
  over_return : ∀ {frames log} (s : Step), Busy frames log → s.callStack = frames.reverse →
    s.kind = .functionReturn → Over frames (s :: log)
  calm_call : ∀ {frames log name f} (frame : Frame) (s : Step), Busy frames log →
    (functionTable dialect p).get? name = some f → frame.function = f.name →
    s.kind = .functionCall → s.line = f.headerLine → s.bindings = frame.args →
    s.callStack = (frame :: frames).reverse → Calm (frame :: frames) (s :: log)
  busy_of_inner : ∀ {frame frames log}, Busy (frame :: frames) log → Busy frames log
  busy_of_over : ∀ {frame frames log}, Over (frame :: frames) log → Busy frames log

namespace Discipline

variable {dialect : Dialect} {p : Program} (D : Discipline dialect p)

/-- Ends of a computation that was started with these calls under way. -/
def Ends (E : Fault → Prop) (Q : α → List Frame → List Step → Prop) (frames : List Frame) :
    Except Fault α × Machine → Prop
  | (.ok a, m) => m.recorder.frames = frames ∧ Q a frames m.recorder.log
  | (.error fault, m) => m.recorder.frames = frames ∧ E fault ∧ D.Busy frames m.recorder.log

/-- A computation started in a state with `P` ends with `Q`, or with a fault in `E`. -/
def Holds (E : Fault → Prop) (P : List Frame → List Step → Prop) (x : Run α)
    (Q : α → List Frame → List Step → Prop) : Prop :=
  ∀ m, P m.recorder.frames m.recorder.log → D.Ends E Q m.recorder.frames (x.outcome m)

end Discipline

end Stepwise
