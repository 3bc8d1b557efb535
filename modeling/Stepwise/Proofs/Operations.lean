import Stepwise.Proofs.Reachability

/-!
# Trees of operations

The code that runs a program works on the recorder by four operations: it writes output, records
steps, asks whether a loop may go on, and enters functions, in whose bodies it does the same. Any of
them can be cut short by a fault. An account of a tree of such operations says what they come to
without a stack: it goes down the tree with the calls around it, and lists the attempts to record a
step. The recorder agrees with the account (`play_accounted`): whatever is cut short, and wherever,
the calls under way are afterwards those from before, every attempt was counted, and the log holds
the attempts that could be recorded, each with the calls around it.
-/

namespace Stepwise

open Run

/-- An operation on a recorder, or something else that happens between two of them. -/
inductive Act
  | write (text ending : Text)
  | record (line : Int) (kind : String) (explanation : Text) (scope : Scope)
  | proceed (line iteration cost : Int)
  /-- Change lists. -/
  | alter (change : Heap → Heap)
  | raise (fault : Fault)
  /-- Enter a function, whose body gives a value or falls through if it is not cut short. -/
  | invoke (function : String) (params : List String) (line : Int) (args : List Value)
      (explanation : Text) (body : List Act) (returned : Option Value)

/-- What an operation gives back. -/
inductive Act.Answer
  | done
  | mayProceed (answer : Bool)
  | value (v : Value)

mutual

/-- Do an operation. -/
def Act.run (limits : Limits) : Act → Run Act.Answer
  | .write text ending => do
    Record.write text ending
    pure .done
  | .record line kind explanation scope => do
    Record.stepOf limits line (StepKind.ofName kind) explanation scope
    pure .done
  | .proceed line iteration cost => do
    pure (.mayProceed (← Record.continueLoop limits line iteration cost))
  | .alter change => do
    modify fun m => { m with heap := change m.heap }
    pure .done
  | .raise fault => throw fault
  | .invoke function params line args explanation body returned => do
    let v ← Record.enter limits function params line args explanation fun _ => do
      Act.runAll limits body
      pure (returned.getD .none)
    pure (.value v)

/-- Do operations in turn. -/
def Act.runAll (limits : Limits) : List Act → Run Unit
  | [] => pure ()
  | act :: acts => do
    let _ ← act.run limits
    Act.runAll limits acts

end

section Attempts

/-- An attempt to record a step, with the state in which it is made. -/
structure Attempt where
  line : Int
  kind : String
  explanation : Text
  scope : Scope
  heap : Heap
  output : List Text
  /-- The calls around it, outermost first. -/
  calls : List Frame

namespace Attempt

/-- An attempt that can be recorded as the step with this number: there are no more steps than
allowed, the kind is known, and no variable reaches a list that contains itself. -/
structure Recordable (limits : Limits) (number : Nat) (a : Attempt) : Prop where
  budget : (number : Int) ≤ limits.maxSteps
  kind : ∃ k : StepKind, k.name = a.kind
  scope : ∀ e ∈ a.scope.entries, ¬ a.heap.Bottomless e.2

/-- What a step shows is what was attempted. -/
structure Shows (a : Attempt) (s : Step) : Prop where
  line : s.line = a.line
  kind : s.kind.name = a.kind
  explanation : s.explanation = a.explanation
  bindings : a.heap.snapshotScope a.scope = .ok s.bindings
  callStack : s.callStack = a.calls
  output : s.output = a.output

/-- Why an attempt fails. -/
def fault? (limits : Limits) (number : Nat) (a : Attempt) : Option Fault :=
  if limits.maxSteps < number then some (.stepBudget limits.maxSteps)
  else
    match a.heap.snapshotScope a.scope, StepKind.ofName a.kind with
    | .error fault, _ => some fault
    | .ok _, .error fault => some fault
    | .ok _, .ok _ => none

end Attempt

/-- A log of the attempts that could be recorded, and only of these. Both are newest first. -/
inductive Logged (limits : Limits) : List Attempt → List Step → Prop
  | nil : Logged limits [] []
  | recorded {a : Attempt} {as : List Attempt} {s : Step} {log : List Step} :
      a.Recordable limits (as.length + 1) → a.Shows s → Logged limits as log →
      Logged limits (a :: as) (s :: log)
  | failed {a : Attempt} {as : List Attempt} {log : List Step} :
      ¬ a.Recordable limits (as.length + 1) → Logged limits as log → Logged limits (a :: as) log

end Attempts

section Account

/-- What operations leave behind, but for the calls under way. -/
structure Ledger where
  heap : Heap
  /-- The output entries, newest first. -/
  entries : List Text := []
  /-- The next output continues the newest entry. -/
  entryOpen : Bool := false
  /-- The attempts to record a step, newest first. -/
  attempts : List Attempt := []

/-- Computations on the ledger. A fault comes with the calls around the place where it arose. -/
abbrev Account (α : Type) := ExceptT (Fault × List Frame) (StateM Ledger) α

namespace Account

/-- Enter output into the ledger. -/
def write (text ending : Text) : Account Unit :=
  modify fun s =>
    let r := ({ entries := s.entries, entryOpen := s.entryOpen } : Recorder).write text ending
    { s with entries := r.entries, entryOpen := r.entryOpen }

/-- Try to record a step inside some calls. -/
def attempt (limits : Limits) (calls : List Frame) (line : Int) (kind : String)
    (explanation : Text) (scope : Scope) : Account Unit := do
  let s ← get
  let a : Attempt :=
    { line, kind, explanation, scope, heap := s.heap, output := s.entries.reverse, calls }
  set { s with attempts := a :: s.attempts }
  match a.fault? limits (s.attempts.length + 1) with
  | some fault => throw (fault, calls)
  | none => pure ()

/-- Does an iteration fit into what is left of the limits? -/
def mayProceed (limits : Limits) (iteration cost : Int) : Account Bool := do
  let used := (← get).attempts.length
  pure (decide (iteration < limits.maxLoopIterations) && decide (cost < limits.maxSteps - used))

/-- Do `body` inside one more call, if there may be one. -/
def enter {α : Type} (limits : Limits) (calls : List Frame) (function : String)
    (params : List String) (line : Int) (args : List Value) (explanation : Text)
    (body : List Frame → Account α) : Account α := do
  if limits.maxCallDepth ≤ calls.length then
    throw (.callDepth limits.maxCallDepth function, calls)
  let scope := Record.bindParams params args
  match (← get).heap.snapshotScope scope with
  | .error fault => throw (fault, calls)
  | .ok shown =>
    let inner := calls ++ [⟨function, shown⟩]
    attempt limits inner line "function_call" explanation scope
    body inner

end Account

mutual

/-- What an operation inside some calls comes to. -/
def Act.account (limits : Limits) (calls : List Frame) : Act → Account Act.Answer
  | .write text ending => do
    Account.write text ending
    pure .done
  | .record line kind explanation scope => do
    Account.attempt limits calls line kind explanation scope
    pure .done
  | .proceed _ iteration cost => do
    pure (.mayProceed (← Account.mayProceed limits iteration cost))
  | .alter change => do
    modify fun s => { s with heap := change s.heap }
    pure .done
  | .raise fault => throw (fault, calls)
  | .invoke function params line args explanation body returned => do
    let v ← Account.enter limits calls function params line args explanation fun inner => do
      Act.accountAll limits inner body
      pure (returned.getD .none)
    pure (.value v)

/-- What several operations inside some calls come to, up to the first fault. -/
def Act.accountAll (limits : Limits) (calls : List Frame) : List Act → Account Unit
  | [] => pure ()
  | act :: acts => do
    let _ ← act.account limits calls
    Act.accountAll limits calls acts

end

/-- How a fault comes out of the calls around it, down to those outside. A list that contains itself
is reported as the innermost call that went too deep. -/
def surfaced (outside : List Frame) (fault : Fault) (calls : List Frame) : Fault :=
  match calls.getLast? with
  | some innermost =>
    if fault = .bottomless ∧ outside.length < calls.length then
      .nestedCalls calls.length innermost.function
    else fault
  | none => fault

end Account

namespace StepKind

theorem ofName_cases (name : String) :
    (∃ k : StepKind, ofName name = .ok k ∧ k.name = name) ∨
      ofName name = .error (.unknownKind name) ∧ ∀ k : StepKind, k.name ≠ name := by
  rw [ofName]
  rcases hfind : all.find? (·.name == name) with _ | k
  · refine .inr ⟨by rw [hfind]; rfl, fun k hk => ?_⟩
    have hmem : k ∈ all := by cases k <;> decide
    exact List.find?_eq_none.1 hfind k hmem (by simp [hk])
  · exact .inl ⟨k, by rw [hfind]; rfl, by simpa using List.find?_some hfind⟩

end StepKind

namespace Attempt

variable {limits : Limits} {number : Nat} {a : Attempt}

theorem fault?_eq_none_iff : a.fault? limits number = none ↔ a.Recordable limits number := by
  unfold fault?
  by_cases hbudget : limits.maxSteps < number
  · rw [if_pos hbudget]
    exact ⟨nofun, fun h => absurd h.budget (by omega)⟩
  rw [if_neg hbudget]
  rcases a.heap.snapshotScope_cases a.scope with ⟨bindings, hok, hscope⟩ | ⟨herror, e, he, hb⟩
  · rw [hok]
    rcases StepKind.ofName_cases a.kind with ⟨k, hk, hname⟩ | ⟨hk, hname⟩ <;> rw [hk]
    · exact ⟨fun _ => ⟨by omega, ⟨k, hname⟩, hscope⟩, fun _ => rfl⟩
    · exact ⟨nofun, fun h => absurd h.kind.choose_spec (hname _)⟩
  · rw [herror]
    exact ⟨nofun, fun h => absurd hb (h.scope e he)⟩

end Attempt

/-- The attempt that a machine makes when a step is to be recorded. -/
def Machine.attempt (m : Machine) (line : Int) (kind : String) (explanation : Text)
    (scope : Scope) : Attempt :=
  { line, kind, explanation, scope, heap := m.heap, output := m.recorder.output
    calls := m.recorder.frames.reverse }

/-- An attempt is counted, and recorded unless it fails. -/
theorem Record.outcome_stepOf_cases (limits : Limits) (line : Int) (kind : String)
    (explanation : Text) (scope : Scope) (m : Machine) :
    (∃ fault, (m.attempt line kind explanation scope).fault? limits (m.recorder.stepCount + 1) =
        some fault ∧ (stepOf limits line (StepKind.ofName kind) explanation scope).outcome m =
          (.error fault, m.counted)) ∨
      ∃ k bindings, (m.attempt line kind explanation scope).fault? limits
        (m.recorder.stepCount + 1) = none ∧ k.name = kind ∧
        m.heap.snapshotScope scope = .ok bindings ∧
        (stepOf limits line (StepKind.ofName kind) explanation scope).outcome m =
          (.ok (), m.recorded line k explanation bindings) := by
  unfold stepOf Attempt.fault? Machine.attempt
  rw [outcome_bind_ok (outcome_modifyRecorder _ m), outcome_bind_ok (outcome_stepCount _)]
  dsimp only
  split_ifs with hbudget
  · exact .inl ⟨_, rfl, rfl⟩
  have hread := outcome_fromHeap (·.snapshotScope scope) m.counted
  rcases hb : m.heap.snapshotScope scope with fault | bindings
  · rw [show m.counted.heap.snapshotScope scope = .error fault from hb] at hread
    exact .inl ⟨fault, rfl, outcome_bind_error hread _⟩
  rw [show m.counted.heap.snapshotScope scope = .ok bindings from hb] at hread
  have hkind := outcome_ofExcept (StepKind.ofName kind) m.counted
  rcases StepKind.ofName_cases kind with ⟨k, hk, hname⟩ | ⟨hk, -⟩ <;> rw [hk] at hkind ⊢
  · exact .inr ⟨k, bindings, rfl, hname, rfl,
      (outcome_bind_ok hread _).trans (outcome_bind_ok hkind _)⟩
  · exact .inl ⟨_, rfl, (outcome_bind_ok hread _).trans (outcome_bind_error hkind _)⟩

section Agreement

variable {α β : Type} {limits : Limits} {calls : List Frame}

/-- What a computation on the ledger gives. -/
def Account.outcome (y : Account α) (s : Ledger) : Except (Fault × List Frame) α × Ledger :=
  y.run.run s

theorem Account.outcome_bind_ok {y : Account α} {s s' : Ledger} {a : α}
    (h : y.outcome s = (.ok a, s')) (g : α → Account β) :
    (y >>= g).outcome s = (g a).outcome s' := by
  show ExceptT.bindCont g (y.outcome s).1 (y.outcome s).2 = _
  rw [h]
  rfl

theorem Account.outcome_bind_error {y : Account α} {s s' : Ledger} {fault : Fault × List Frame}
    (h : y.outcome s = (.error fault, s')) (g : α → Account β) :
    (y >>= g).outcome s = (.error fault, s') := by
  show ExceptT.bindCont g (y.outcome s).1 (y.outcome s).2 = _
  rw [h]
  rfl

theorem Account.outcome_attempt (limits : Limits) {calls : List Frame} {line : Int} {kind : String}
    {explanation : Text} {scope : Scope} {s : Ledger} {a : Attempt}
    (ha : a = ⟨line, kind, explanation, scope, s.heap, s.entries.reverse, calls⟩) :
    (attempt limits calls line kind explanation scope).outcome s =
      ((a.fault? limits (s.attempts.length + 1)).elim (.ok ()) fun fault => .error (fault, calls),
        { s with attempts := a :: s.attempts }) := by
  rw [attempt, outcome_bind_ok (show (get : Account Ledger).outcome s = (.ok s, s) from rfl)]
  dsimp only
  rw [← ha, outcome_bind_ok (show (set _ : Account PUnit).outcome s = (.ok ⟨⟩, _) from rfl)]
  cases a.fault? limits (s.attempts.length + 1) <;> rfl

/-- A machine that a ledger is about, inside some calls. -/
structure Ledger.Describes (s : Ledger) (limits : Limits) (calls : List Frame) (m : Machine) :
    Prop where
  heap : m.heap = s.heap
  entries : m.recorder.entries = s.entries
  entryOpen : m.recorder.entryOpen = s.entryOpen
  frames : m.recorder.frames.reverse = calls
  counted : m.recorder.stepCount = s.attempts.length
  logged : Logged limits s.attempts m.recorder.log
  shallow : (calls.length : Int) ≤ max 0 limits.maxCallDepth
  depth : ∀ a ∈ s.attempts, (a.calls.length : Int) ≤ max 0 limits.maxCallDepth

/-- The same answer, or a fault as it comes out of the calls that it arose in. -/
def Settled (calls : List Frame) : Except Fault α → Except (Fault × List Frame) α → Prop
  | .ok a, .ok b => a = b
  | .error fault, .error (origin, inner) => calls <+: inner ∧ fault = surfaced calls origin inner
  | _, _ => False

/-- A computation does what an account of it says, inside some calls. -/
def Accounted (limits : Limits) (calls : List Frame) (x : Run α) (y : Account α) : Prop :=
  ∀ m s, s.Describes limits calls m →
    Settled calls (x.outcome m).1 (y.outcome s).1 ∧
      (y.outcome s).2.Describes limits calls (x.outcome m).2 ∧
        m.recorder.log <:+ (x.outcome m).2.recorder.log

theorem Ledger.Describes.pop {s : Ledger} {m : Machine} {frame : Frame}
    (h : s.Describes limits (calls ++ [frame]) m) : s.Describes limits calls m.pop :=
  { h with
    frames := by
      have hframes : m.recorder.frames = frame :: calls.reverse := by
        rw [← List.reverse_reverse m.recorder.frames, h.frames, List.reverse_concat]
      show m.recorder.frames.tail.reverse = calls
      rw [hframes, List.tail_cons, List.reverse_reverse]
    shallow := by
      have := h.shallow
      rw [List.length_append, List.length_singleton] at this
      omega }

theorem surfaced_here (calls : List Frame) (fault : Fault) :
    surfaced calls fault calls = fault := by
  unfold surfaced
  split <;> simp

/-- A list that contains itself is reported where the innermost call around it ends. -/
theorem surfaced_pop {frame : Frame} {inner : List Frame} (h : calls ++ [frame] <+: inner)
    (origin : Fault) :
    surfaced calls origin inner =
      if surfaced (calls ++ [frame]) origin inner = .bottomless then
        .nestedCalls (calls.length + 1) frame.function
      else surfaced (calls ++ [frame]) origin inner := by
  have hlen : calls.length + 1 ≤ inner.length := by simpa using h.length_le
  rcases List.eq_nil_or_concat inner with rfl | ⟨front, innermost, rfl⟩
  · simp at hlen
  rw [List.concat_eq_append] at h hlen ⊢
  simp only [surfaced, List.getLast?_concat, List.length_append, List.length_singleton] at hlen ⊢
  by_cases horigin : origin = .bottomless
  · by_cases hdeeper : calls.length < front.length
    · simp [horigin, hdeeper, Nat.lt_succ_of_lt hdeeper]
    · have heq := h.eq_of_length (by simp; omega)
      obtain ⟨rfl, hlast⟩ := List.append_inj' heq rfl
      obtain rfl : frame = innermost := by simpa using hlast
      simp [horigin]
  · simp [horigin]

namespace Accounted

theorem pure (a : α) : Accounted limits calls (Pure.pure a) (Pure.pure a) :=
  fun _ _ h => ⟨rfl, h, List.suffix_rfl⟩

theorem throw (fault : Fault) :
    Accounted limits calls (throw fault : Run α) (throw (fault, calls)) :=
  fun _ _ h => ⟨⟨List.prefix_rfl, (surfaced_here calls fault).symm⟩, h, List.suffix_rfl⟩

theorem bind {x : Run α} {y : Account α} {f : α → Run β} {g : α → Account β}
    (hx : Accounted limits calls x y) (hf : ∀ a, Accounted limits calls (f a) (g a)) :
    Accounted limits calls (x >>= f) (y >>= g) := by
  intro m s h
  obtain ⟨hsettled, hdesc, hlog⟩ := hx m s h
  rcases hm : x.outcome m with ⟨fault | a, m'⟩ <;> rcases hs : y.outcome s with ⟨origin | b, s'⟩ <;>
    rw [hm, hs] at hsettled hdesc <;> rw [hm] at hlog
  · rw [outcome_bind_error hm, Account.outcome_bind_error hs]
    exact ⟨hsettled, hdesc, hlog⟩
  · exact hsettled.elim
  · exact hsettled.elim
  · obtain rfl : a = b := hsettled
    rw [outcome_bind_ok hm, Account.outcome_bind_ok hs]
    obtain ⟨hsettled', hdesc', hlog'⟩ := hf a m' s' hdesc
    exact ⟨hsettled', hdesc', hlog.trans hlog'⟩

theorem write (text ending : Text) :
    Accounted limits calls (Record.write text ending) (Account.write text ending) := by
  intro m s h
  refine ⟨rfl, { h with entries := ?_, entryOpen := rfl }, List.suffix_rfl⟩
  show (m.recorder.write text ending).entries = _
  simp only [Recorder.write, h.entries, h.entryOpen]
  rfl

theorem alter (change : Heap → Heap) :
    Accounted limits calls (modify fun m : Machine => { m with heap := change m.heap })
      (modify fun s : Ledger => { s with heap := change s.heap }) :=
  fun _ _ h => ⟨rfl, { h with heap := congrArg change h.heap }, List.suffix_rfl⟩

/-- Whether a loop may go on is accounted for; a warning is not. -/
theorem proceed (line iteration cost : Int) :
    Accounted limits calls (Record.continueLoop limits line iteration cost)
      (Account.mayProceed limits iteration cost) := by
  intro m s h
  have hy : (Account.mayProceed limits iteration cost).outcome s =
      (.ok (decide (iteration < limits.maxLoopIterations) &&
        decide (cost < limits.maxSteps - m.recorder.stepCount)), s) := by
    rw [h.counted]
    rfl
  rw [hy, Record.outcome_continueLoop]
  split_ifs with hcap hreserve
  · exact ⟨by simp [Settled, Int.not_lt.2 hcap], { h with }, List.suffix_rfl⟩
  · exact ⟨by simp [Settled, Int.not_lt.2 hreserve], { h with }, List.suffix_rfl⟩
  · exact ⟨by simp [Settled, Int.not_le.1 hcap, Int.not_le.1 hreserve], h, List.suffix_rfl⟩

/-- A step is accounted for as an attempt, recorded or not. -/
theorem attempt (line : Int) (kind : String) (explanation : Text) (scope : Scope) :
    Accounted limits calls (Record.stepOf limits line (StepKind.ofName kind) explanation scope)
      (Account.attempt limits calls line kind explanation scope) := by
  intro m s h
  let a := m.attempt line kind explanation scope
  have ha : a = ⟨line, kind, explanation, scope, s.heap, s.entries.reverse, calls⟩ := by
    simp only [a, Machine.attempt, h.heap, h.frames, Recorder.output, h.entries]
  have hdepth : ∀ a' ∈ a :: s.attempts, (a'.calls.length : Int) ≤ max 0 limits.maxCallDepth := by
    refine List.forall_mem_cons.2 ⟨?_, h.depth⟩
    rw [ha]
    exact h.shallow
  have hnumber : m.recorder.stepCount + 1 = s.attempts.length + 1 := by rw [h.counted]
  have hy := Account.outcome_attempt limits ha
  rcases Record.outcome_stepOf_cases limits line kind explanation scope m with
    ⟨fault, hfault, hx⟩ | ⟨k, bindings, hnone, hk, hb, hx⟩
  · rw [hx, hy, ← hnumber, hfault]
    have hfailed : ¬ a.Recordable limits (s.attempts.length + 1) := by
      rw [← hnumber, ← Attempt.fault?_eq_none_iff, hfault]
      exact nofun
    exact ⟨⟨List.prefix_rfl, (surfaced_here calls fault).symm⟩,
      { h with counted := hnumber, logged := .failed hfailed h.logged, depth := hdepth },
      List.suffix_rfl⟩
  · rw [hx, hy, ← hnumber, hnone]
    have hrecorded : a.Recordable limits (s.attempts.length + 1) := by
      rw [← hnumber, ← Attempt.fault?_eq_none_iff, hnone]
    exact ⟨rfl, { h with
        counted := hnumber
        logged := .recorded hrecorded ⟨rfl, hk, rfl, hb, rfl, rfl⟩ h.logged
        depth := hdepth }, List.suffix_cons _ _⟩

theorem enter {function : String} {params : List String} {line : Int} {args : List Value}
    {explanation : Text} {body : Scope → Run α} {y : List Frame → Account α}
    (hbody : ∀ shown, Accounted limits (calls ++ [⟨function, shown⟩])
      (body (Record.bindParams params args)) (y (calls ++ [⟨function, shown⟩]))) :
    Accounted limits calls (Record.enter limits function params line args explanation body)
      (Account.enter limits calls function params line args explanation y) := by
  intro m s h
  have hlen : m.recorder.frames.length = calls.length := by rw [← h.frames, List.length_reverse]
  rw [Record.outcome_enter, hlen]
  by_cases hdeep : limits.maxCallDepth ≤ calls.length
  · rw [if_pos hdeep, Account.enter, if_pos hdeep]
    exact ⟨⟨List.prefix_rfl, (surfaced_here calls _).symm⟩, h, List.suffix_rfl⟩
  have hget : (get : Account Ledger).outcome s = (.ok s, s) := rfl
  rw [if_neg hdeep, Account.enter, if_neg hdeep, Account.outcome_bind_ok hget, ← h.heap]
  rcases hshown : m.heap.snapshotScope (Record.bindParams params args) with fault | shown
  · exact ⟨⟨List.prefix_rfl, (surfaced_here calls _).symm⟩, h, List.suffix_rfl⟩
  have hinner : s.Describes limits (calls ++ [⟨function, shown⟩]) (m.push ⟨function, shown⟩) :=
    { h with
      frames := by simp [Machine.push, h.frames]
      shallow := by
        rw [List.length_append, List.length_singleton]
        omega }
  have hcall := (attempt line "function_call" explanation (Record.bindParams params args)).bind
    fun _ => hbody shown
  obtain ⟨hsettled, hdesc, hlog⟩ := hcall _ _ hinner
  have hstep : Record.stepOf limits line (StepKind.ofName "function_call") explanation
      (Record.bindParams params args) = Record.step limits line .functionCall explanation
        (Record.bindParams params args) := rfl
  rw [hstep] at hsettled hdesc hlog
  have hdepth : ∀ {s' : Ledger} {m' : Machine},
      s'.Describes limits (calls ++ [⟨function, shown⟩]) m' →
        m'.recorder.frames.length = calls.length + 1 := fun h' => by
    rw [← List.length_reverse, h'.frames, List.length_append, List.length_singleton]
  dsimp only
  rcases hm : (Record.step limits line .functionCall explanation (Record.bindParams params args) >>=
      fun _ => body (Record.bindParams params args)).outcome (m.push ⟨function, shown⟩)
    with ⟨fault | a, m'⟩ <;>
  rcases hs : (Account.attempt limits (calls ++ [⟨function, shown⟩]) line "function_call"
      explanation (Record.bindParams params args) >>= fun _ =>
        y (calls ++ [⟨function, shown⟩])).outcome s
    with ⟨⟨origin, inner⟩ | b, s'⟩ <;>
  rw [hm] at hlog <;> rw [hm, hs] at hsettled hdesc <;> simp only [hs]
  · obtain ⟨hinside, rfl⟩ := hsettled
    refine ⟨⟨(List.prefix_append calls _).trans hinside, ?_⟩, hdesc.pop, hlog⟩
    rw [surfaced_pop hinside, hdepth hdesc]
  · exact hsettled.elim
  · exact hsettled.elim
  · exact ⟨hsettled, hdesc.pop, hlog⟩

end Accounted

mutual

theorem Act.run_accounted (limits : Limits) : ∀ (act : Act) (calls : List Frame),
    Accounted limits calls (act.run limits) (act.account limits calls)
  | .write text ending, _ => (Accounted.write text ending).bind fun _ => .pure _
  | .record line kind explanation scope, _ =>
    (Accounted.attempt line kind explanation scope).bind fun _ => .pure _
  | .proceed line iteration cost, _ => (Accounted.proceed line iteration cost).bind fun _ => .pure _
  | .alter change, _ => (Accounted.alter change).bind fun _ => .pure _
  | .raise fault, _ => .throw fault
  | .invoke function _ _ _ _ body _, calls =>
    (Accounted.enter fun shown =>
      (Act.runAll_accounted limits body (calls ++ [⟨function, shown⟩])).bind fun _ => .pure _).bind
        fun _ => .pure _

theorem Act.runAll_accounted (limits : Limits) : ∀ (acts : List Act) (calls : List Frame),
    Accounted limits calls (Act.runAll limits acts) (Act.accountAll limits calls acts)
  | [], _ => .pure ()
  | act :: acts, calls =>
    (Act.run_accounted limits act calls).bind fun _ => Act.runAll_accounted limits acts calls

end

end Agreement

section Play

/-- Do operations on a fresh recorder, each from the state that the one before leaves, whether or
not that was cut short. -/
def play (limits : Limits) (heap : Heap) (acts : List Act) : Machine :=
  acts.foldl (fun m act => ((act.run limits).outcome m).2) { heap }

/-- What the operations come to. -/
def tally (limits : Limits) (heap : Heap) (acts : List Act) : Ledger :=
  acts.foldl (fun s act => ((act.account limits []).outcome s).2) { heap }

theorem tally_describes (limits : Limits) (heap : Heap) (acts : List Act) :
    (tally limits heap acts).Describes limits [] (play limits heap acts) := by
  induction acts using List.reverseRecOn with
  | nil => exact ⟨rfl, rfl, rfl, rfl, rfl, .nil, Int.le_max_left _ _, nofun⟩
  | append_singleton acts act ih =>
    rw [play, tally, List.foldl_concat, List.foldl_concat]
    exact (act.run_accounted limits [] _ _ ih).2.1

/-- Operations on a fresh recorder, of which any may be cut short, leave no calls under way. All
attempts to record a step are counted, and those that can be recorded are logged with the calls
around them, of which there are no more than allowed. What another operation logs comes after what
is there. It answers as its account says, but a list that contains itself is reported as the
innermost call around it. A call that is too deep, wherever it is made, changes nothing. -/
theorem play_accounted (limits : Limits) (heap : Heap) (acts : List Act) (act : Act) :
    let m := play limits heap acts
    let r := (act.run limits).outcome m
    let a := (act.account limits []).outcome (tally limits heap acts)
    r.2.recorder.frames = m.recorder.frames ∧
      m.recorder.steps <+: r.2.recorder.steps ∧
      r.2.recorder.stepCount = a.2.attempts.length ∧
      Logged limits a.2.attempts r.2.recorder.log ∧
      (∀ attempt ∈ a.2.attempts, (attempt.calls.length : Int) ≤ max 0 limits.maxCallDepth) ∧
      Settled [] r.1 a.1 ∧
      ∀ (function : String) (params : List String) (line : Int) (args : List Value)
        (explanation : Text) (body : List Act) (returned : Option Value) (n : Machine),
        limits.maxCallDepth ≤ n.recorder.frames.length →
          ((Act.invoke function params line args explanation body returned).run limits).outcome n =
            (.error (.callDepth limits.maxCallDepth function), n) := by
  intro m r a
  have hbefore := tally_describes limits heap acts
  obtain ⟨hsettled, hafter, hlog⟩ := act.run_accounted limits [] _ _ hbefore
  refine ⟨?_, ?_, hafter.counted, hafter.logged, hafter.depth, hsettled, ?_⟩
  · exact List.reverse_injective (hafter.frames.trans hbefore.frames.symm)
  · exact List.reverse_prefix.2 hlog
  · intro function params line args explanation body returned n hdeep
    have henter := Record.outcome_enter limits function params line args explanation
      (fun _ => do Act.runAll limits body; pure (returned.getD .none)) n
    rw [if_pos hdeep] at henter
    exact outcome_bind_error henter _

/-- A list that contains itself two calls deep, and a third call that is one too many. -/
theorem play_accounted_nested :
    let limits : Limits := { maxCallDepth := 2 }
    let act : Act :=
      .invoke "f" [] 0 [] [] [.invoke "g" [] 1 [] [] [.raise .bottomless] none] none
    let r := (act.run limits).outcome (play limits {} [])
    let n := ((Machine.mk {} {}).push ⟨"f", Table.empty⟩).push ⟨"g", Table.empty⟩
    r.2.recorder.frames = [] ∧ r.2.recorder.stepCount = 2 ∧
      (∃ fault, r.1 = .error fault ∧ fault = .nestedCalls 2 "g") ∧
      limits.maxCallDepth ≤ n.recorder.frames.length ∧
      (act.run limits).outcome n = (.error (.callDepth 2 "f"), n) := by
  intro limits act r n
  obtain ⟨hframes, -, hcount, -, -, hsettled, hdeep⟩ := play_accounted limits {} [] act
  refine ⟨hframes, hcount, ?_, by decide, hdeep _ _ _ _ _ _ _ n (by decide)⟩
  rcases hr : r.1 with fault | answer
  · rw [show ((act.run limits).outcome (play limits {} [])).1 = .error fault from hr] at hsettled
    exact ⟨fault, rfl, hsettled.2⟩
  · rw [show ((act.run limits).outcome (play limits {} [])).1 = .ok answer from hr] at hsettled
    exact hsettled.elim

end Play

end Stepwise
