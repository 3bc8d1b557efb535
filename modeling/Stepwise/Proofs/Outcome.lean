import Mathlib.Tactic.SplitIfs
import Stepwise.Trace

/-!
# Outcomes of a run

A computation of a run takes the machine from one state to another and gives a result or a fault.
`Run.outcome` is that function, with one equation for each way to put computations together.

Most of what a statement does is `Quiet`: it may change the heap and the output, but not the steps,
their number, the calls under way or the warnings. `Returns x a` says that `a` can come out of `x`.
-/

namespace Stepwise

variable {α β : Type}

namespace Run

/-- What a computation gives from a state on. -/
def outcome (x : Run α) (m : Machine) : Except Fault α × Machine := x.run.run m

theorem ext_outcome {x y : Run α} (h : ∀ m, x.outcome m = y.outcome m) : x = y := funext h

@[simp] theorem outcome_pure (a : α) (m : Machine) : outcome (pure a) m = (.ok a, m) := rfl

@[simp] theorem outcome_throw (fault : Fault) (m : Machine) :
    outcome (throw fault : Run α) m = (.error fault, m) := rfl

@[simp] theorem outcome_get (m : Machine) : outcome (get : Run Machine) m = (.ok m, m) := rfl

@[simp] theorem outcome_set (m' m : Machine) : outcome (set m' : Run PUnit) m = (.ok ⟨⟩, m') := rfl

@[simp] theorem outcome_ofExcept (x : Except Fault α) (m : Machine) :
    outcome (ofExcept x) m = (x, m) := by
  cases x <;> rfl

theorem outcome_bind (x : Run α) (f : α → Run β) (m : Machine) :
    outcome (x >>= f) m =
      match x.outcome m with
      | (.ok a, m') => (f a).outcome m'
      | (.error fault, m') => (.error fault, m') := by
  have h : outcome (x >>= f) m = ExceptT.bindCont f (x.outcome m).1 (x.outcome m).2 := rfl
  rw [h]
  rcases x.outcome m with ⟨fault | a, m'⟩ <;> rfl

theorem outcome_tryCatch (x : Run α) (handle : Fault → Run α) (m : Machine) :
    outcome (tryCatch x handle) m =
      match x.outcome m with
      | (.ok a, m') => (.ok a, m')
      | (.error fault, m') => (handle fault).outcome m' := by
  show ExceptT.tryCatch x handle m = _
  simp only [ExceptT.tryCatch, ExceptT.mk, bind, StateT.bind, outcome, ExceptT.run, StateT.run]
  rcases x m with ⟨fault | a, m'⟩ <;> rfl

theorem outcome_bind_ok {x : Run α} {m m' : Machine} {a : α} (h : x.outcome m = (.ok a, m'))
    (f : α → Run β) : (x >>= f).outcome m = (f a).outcome m' := by
  rw [outcome_bind, h]

theorem outcome_bind_error {x : Run α} {m m' : Machine} {fault : Fault}
    (h : x.outcome m = (.error fault, m')) (f : α → Run β) :
    (x >>= f).outcome m = (.error fault, m') := by
  rw [outcome_bind, h]

theorem outcome_bind_congr {x : Run α} {f g : α → Run β} {m : Machine}
    (h : ∀ a m', x.outcome m = (.ok a, m') → (g a).outcome m' = (f a).outcome m') :
    (x >>= g).outcome m = (x >>= f).outcome m := by
  rcases hx : x.outcome m with ⟨fault | a, m'⟩
  · rw [outcome_bind_error hx, outcome_bind_error hx]
  · rw [outcome_bind_ok hx, outcome_bind_ok hx]
    exact h a m' hx

theorem outcome_tryCatch_ok {x : Run α} {m m' : Machine} {a : α} (h : x.outcome m = (.ok a, m'))
    (handle : Fault → Run α) : (tryCatch x handle).outcome m = (.ok a, m') := by
  rw [outcome_tryCatch, h]

theorem outcome_tryCatch_error {x : Run α} {m m' : Machine} {fault : Fault}
    (h : x.outcome m = (.error fault, m')) (handle : Fault → Run α) :
    (tryCatch x handle).outcome m = (handle fault).outcome m' := by
  rw [outcome_tryCatch, h]

@[simp] theorem outcome_modifyRecorder (f : Recorder → Recorder) (m : Machine) :
    (modifyRecorder f).outcome m = (.ok ⟨⟩, { m with recorder := f m.recorder }) := rfl

@[simp] theorem outcome_stepCount (m : Machine) :
    stepCount.outcome m = (.ok m.recorder.stepCount, m) := rfl

@[simp] theorem outcome_isTrue (v : Value) (m : Machine) :
    (isTrue v).outcome m = (.ok (m.heap.isTrue v), m) := rfl

@[simp] theorem outcome_fromHeap (read : Heap → Except Fault α) (m : Machine) :
    (fromHeap read).outcome m = (read m.heap, m) := by
  rw [fromHeap, outcome_bind, outcome_get]
  exact outcome_ofExcept _ _

theorem outcome_onHeap (act : HeapM α) (m : Machine) :
    (onHeap act).outcome m =
      ((act.run.run m.heap).1, { m with heap := (act.run.run m.heap).2 }) := by
  rw [onHeap, outcome_bind_ok (outcome_get m)]
  rcases act.run.run m.heap with ⟨result, heap⟩
  rw [outcome_bind_ok (outcome_set _ _)]
  exact outcome_ofExcept _ _

theorem outcome_recover (x : Run Value) (m : Machine) :
    (recover x).outcome m =
      match x.outcome m with
      | (.ok v, m') => (.ok v, m')
      | (.error fault, m') => (if fault.isRecoverable then .ok .unknown else .error fault, m') := by
  rw [recover, outcome_tryCatch]
  rcases x.outcome m with ⟨fault | v, m'⟩
  · dsimp only
    split_ifs <;> rfl
  · rfl

end Run

/-- A value that a computation can give. -/
def Returns (x : Run α) (a : α) : Prop := ∃ m m', x.outcome m = (.ok a, m')

namespace Returns

theorem of_pure {a b : α} (h : Returns (pure a) b) : b = a := by
  obtain ⟨m, m', hm⟩ := h
  cases hm
  rfl

theorem of_bind {x : Run α} {f : α → Run β} {b : β} (h : Returns (x >>= f) b) :
    ∃ a, Returns x a ∧ Returns (f a) b := by
  obtain ⟨m, m', hm⟩ := h
  rcases hx : x.outcome m with ⟨fault | a, m₁⟩
  · rw [Run.outcome_bind_error hx] at hm
    cases hm
  · rw [Run.outcome_bind_ok hx] at hm
    exact ⟨a, ⟨m, m₁, hx⟩, m₁, m', hm⟩

end Returns

/-- Two recorders with the same steps, counter, calls under way and warnings. Their output may
differ. -/
structure Recorder.SameButOutput (r r' : Recorder) : Prop where
  log : r'.log = r.log
  stepCount : r'.stepCount = r.stepCount
  frames : r'.frames = r.frames
  warned : r'.warned = r.warned

namespace Recorder.SameButOutput

theorem refl (r : Recorder) : SameButOutput r r := ⟨rfl, rfl, rfl, rfl⟩

theorem trans {r r' r'' : Recorder} (h : SameButOutput r r') (h' : SameButOutput r' r'') :
    SameButOutput r r'' :=
  ⟨h'.log.trans h.log, h'.stepCount.trans h.stepCount, h'.frames.trans h.frames,
    h'.warned.trans h.warned⟩

end Recorder.SameButOutput

/-- A computation that changes nothing of the recorder but the output. -/
def Quiet (x : Run α) : Prop :=
  ∀ m, Recorder.SameButOutput m.recorder (x.outcome m).2.recorder

namespace Quiet

open Run

theorem of_machine {x : Run α} (h : ∀ m, (x.outcome m).2 = m) : Quiet x := fun m => by
  rw [h]
  exact .refl _

theorem pure (a : α) : Quiet (Pure.pure a : Run α) := of_machine fun _ => rfl

theorem throw (fault : Fault) : Quiet (throw fault : Run α) := of_machine fun _ => rfl

theorem isTrue (v : Value) : Quiet (Run.isTrue v) := of_machine fun _ => rfl

theorem stepCount : Quiet Run.stepCount := of_machine fun _ => rfl

theorem ofExcept (x : Except Fault α) : Quiet (ofExcept x : Run α) :=
  of_machine fun m => by rw [outcome_ofExcept]

theorem fromHeap (read : Heap → Except Fault α) : Quiet (Run.fromHeap read) :=
  of_machine fun m => by rw [outcome_fromHeap]

theorem onHeap (act : HeapM α) : Quiet (Run.onHeap act) := fun m => by
  rw [outcome_onHeap]
  exact .refl _

theorem write (text ending : Text) : Quiet (Record.write text ending) :=
  fun _ => ⟨rfl, rfl, rfl, rfl⟩

theorem bind {x : Run α} {f : α → Run β} (hx : Quiet x) (hf : ∀ a, Quiet (f a)) :
    Quiet (x >>= f) := fun m => by
  have h := hx m
  rcases hm : x.outcome m with ⟨fault | a, m'⟩ <;> rw [hm] at h
  · rw [outcome_bind_error hm]
    exact h
  · rw [outcome_bind_ok hm]
    exact h.trans (hf a m')

theorem mapM {f : α → Run β} (hf : ∀ a, Quiet (f a)) : ∀ l : List α, Quiet (l.mapM f)
  | [] => pure []
  | a :: l => by
    rw [List.mapM_cons]
    exact (hf a).bind fun b => (mapM hf l).bind fun bs => pure (b :: bs)

theorem storeItem (cell : Nat) (index : Int) (v : Value) :
    Quiet (Host.storeItem cell index v) := fun m => by
  rw [Host.storeItem, outcome_bind_ok (outcome_get m)]
  dsimp only
  split <;> exact .refl _

end Quiet

/-- The machine with other steps and warnings behind it. -/
def Machine.withPast (m : Machine) (log : List Step) (warned : List Warning) : Machine :=
  { m with recorder := { m.recorder with log, warned } }

/-- A quiet computation that does not look at the steps and warnings behind it either. -/
structure Unaware (x : Run α) : Prop where
  quiet : Quiet x
  blind : ∀ m log warned,
    x.outcome (m.withPast log warned) = ((x.outcome m).1, (x.outcome m).2.withPast log warned)

namespace Unaware

open Run

theorem pure (a : α) : Unaware (Pure.pure a : Run α) := ⟨.pure a, fun _ _ _ => rfl⟩

theorem throw (fault : Fault) : Unaware (throw fault : Run α) := ⟨.throw fault, fun _ _ _ => rfl⟩

theorem isTrue (v : Value) : Unaware (Run.isTrue v) := ⟨.isTrue v, fun _ _ _ => rfl⟩

theorem stepCount : Unaware Run.stepCount := ⟨.stepCount, fun _ _ _ => rfl⟩

theorem ofExcept (x : Except Fault α) : Unaware (ofExcept x : Run α) :=
  ⟨.ofExcept x, fun m log warned => by rw [outcome_ofExcept, outcome_ofExcept]⟩

theorem fromHeap (read : Heap → Except Fault α) : Unaware (Run.fromHeap read) :=
  ⟨.fromHeap read, fun m log warned => by
    rw [outcome_fromHeap, outcome_fromHeap]
    rfl⟩

theorem onHeap (act : HeapM α) : Unaware (Run.onHeap act) :=
  ⟨.onHeap act, fun m log warned => by
    rw [outcome_onHeap, outcome_onHeap]
    rfl⟩

theorem write (text ending : Text) : Unaware (Record.write text ending) :=
  ⟨.write text ending, fun _ _ _ => rfl⟩

theorem bind {x : Run α} {f : α → Run β} (hx : Unaware x) (hf : ∀ a, Unaware (f a)) :
    Unaware (x >>= f) := by
  refine ⟨hx.quiet.bind fun a => (hf a).quiet, fun m log warned => ?_⟩
  have h := hx.blind m log warned
  rcases hm : x.outcome m with ⟨fault | a, m'⟩ <;> rw [hm] at h
  · rw [outcome_bind_error hm, outcome_bind_error h]
  · rw [outcome_bind_ok hm, outcome_bind_ok h]
    exact (hf a).blind m' log warned

theorem storeItem (cell : Nat) (index : Int) (v : Value) :
    Unaware (Host.storeItem cell index v) := by
  refine ⟨.storeItem cell index v, fun m log warned => ?_⟩
  have hheap : (m.withPast log warned).heap = m.heap := rfl
  rw [Host.storeItem, outcome_bind_ok (outcome_get m), outcome_bind_ok (outcome_get _)]
  dsimp only
  rw [hheap]
  split <;> rfl

theorem writeCounted (text : Text) : Unaware (Builtin.writeCounted text) :=
  (write text _).bind fun _ => pure _

/-- Of the recorder, built-in functions change and look at the output at most. -/
theorem builtin {dialect : Dialect} {name : String} {f : List Value → Run Value}
    (h : Builtin.find? dialect name = some f) (args : List Value) : Unaware (f args) := by
  cases dialect with
  | indented =>
    simp only [Builtin.find?] at h
    split_ifs at h
    · cases h
      exact (fromHeap _).bind fun _ => (write _ _).bind fun _ => pure _
    · obtain ⟨g, -, rfl⟩ := Option.map_eq_some_iff.1 h
      exact onHeap _
  | braced =>
    simp only [Builtin.find?] at h
    split_ifs at h
    · cases h
      cases args with
      | nil => exact throw _
      | cons fmt rest => exact (fromHeap _).bind fun text => writeCounted text
    · cases h
      exact (fromHeap _).bind fun text => writeCounted text
    · obtain ⟨g, -, rfl⟩ := Option.map_eq_some_iff.1 h
      exact onHeap _

end Unaware

namespace Machine

/-- The machine with one more step counted. -/
def counted (m : Machine) : Machine :=
  { m with recorder := { m.recorder with stepCount := m.recorder.stepCount + 1 } }

/-- The machine with one more step counted and recorded. -/
def recorded (m : Machine) (line : Int) (kind : StepKind) (explanation : Text)
    (bindings : Table Datum) : Machine :=
  { m.counted with
    recorder :=
      { m.counted.recorder with
        log :=
          { line, kind, explanation, bindings
            callStack := m.recorder.frames.reverse, output := m.recorder.output } ::
            m.recorder.log } }

/-- The machine after another warning. -/
def warn (m : Machine) (w : Warning) : Machine :=
  { m with recorder := { m.recorder with warned := w :: m.recorder.warned } }

/-- The machine inside another call. -/
def push (m : Machine) (frame : Frame) : Machine :=
  { m with recorder := { m.recorder with frames := frame :: m.recorder.frames } }

/-- The machine after the innermost call. -/
def pop (m : Machine) : Machine :=
  { m with recorder := { m.recorder with frames := m.recorder.frames.tail } }

end Machine

namespace Record

open Run

/-- A step is counted first, so one that cannot be recorded is counted all the same. -/
theorem outcome_step (limits : Limits) (line : Int) (kind : StepKind) (explanation : Text)
    (scope : Scope) (m : Machine) :
    (step limits line kind explanation scope).outcome m =
      if limits.maxSteps < (m.recorder.stepCount + 1 : Nat) then
        (.error (.stepBudget limits.maxSteps), m.counted)
      else
        match m.heap.snapshotScope scope with
        | .error fault => (.error fault, m.counted)
        | .ok bindings => (.ok (), m.recorded line kind explanation bindings) := by
  unfold step stepOf
  rw [outcome_bind_ok (outcome_modifyRecorder _ m), outcome_bind_ok (outcome_stepCount _)]
  dsimp only
  split_ifs
  · rfl
  · have hr := outcome_fromHeap (·.snapshotScope scope) m.counted
    rcases h : m.counted.heap.snapshotScope scope with fault | bindings <;> rw [h] at hr
    · rw [show m.heap.snapshotScope scope = .error fault from h]
      exact outcome_bind_error hr _
    · rw [show m.heap.snapshotScope scope = .ok bindings from h]
      exact outcome_bind_ok hr _

theorem outcome_continueLoop (limits : Limits) (line iteration cost : Int) (m : Machine) :
    (continueLoop limits line iteration cost).outcome m =
      if limits.maxLoopIterations ≤ iteration then
        (.ok false, m.warn (.iterationCap (line + 1) iteration))
      else if limits.maxSteps - m.recorder.stepCount ≤ cost then
        (.ok false,
          m.warn (.stepReserve (line + 1) iteration m.recorder.stepCount limits.maxSteps))
      else (.ok true, m) := by
  unfold continueLoop
  rw [outcome_bind_ok (outcome_stepCount m)]
  dsimp only
  split_ifs <;> rfl

/-- The frame of a call is there while its body runs, however that ends. -/
theorem outcome_enter {α : Type} (limits : Limits) (function : String) (params : List String)
    (line : Int) (args : List Value) (explanation : Text) (body : Scope → Run α) (m : Machine) :
    (enter limits function params line args explanation body).outcome m =
      if limits.maxCallDepth ≤ m.recorder.frames.length then
        (.error (.callDepth limits.maxCallDepth function), m)
      else
        match m.heap.snapshotScope (bindParams params args) with
        | .error fault => (.error fault, m)
        | .ok shown =>
          match (step limits line .functionCall explanation (bindParams params args) >>= fun _ =>
              body (bindParams params args)).outcome (m.push ⟨function, shown⟩) with
          | (.ok a, m') => (.ok a, m'.pop)
          | (.error fault, m') =>
            (.error (if fault = .bottomless then .nestedCalls m'.recorder.frames.length function
              else fault), m'.pop) := by
  unfold enter
  rw [outcome_bind_ok (outcome_get m)]
  split_ifs
  · rfl
  · dsimp only
    have hr := outcome_fromHeap (·.snapshotScope (bindParams params args)) m
    rcases h : m.heap.snapshotScope (bindParams params args) with fault | shown <;> rw [h] at hr
    · exact outcome_bind_error hr _
    · rw [outcome_bind_ok hr, outcome_bind_ok (outcome_modifyRecorder _ m)]
      dsimp only
      rcases hs : (step limits line .functionCall explanation (bindParams params args) >>=
          fun _ => body (bindParams params args)).outcome (m.push ⟨function, shown⟩)
        with ⟨fault | a, m'⟩
      · exact outcome_bind_error (outcome_tryCatch_error hs _) _
      · exact outcome_bind_ok (outcome_tryCatch_ok hs _) _

end Record

end Stepwise
