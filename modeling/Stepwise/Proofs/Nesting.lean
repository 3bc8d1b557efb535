import Stepwise.Proofs.DisciplinedRuns

/-!
# Calls are well nested

A step shows the calls under way. They are among those that the step before it shows, from the
outermost one on, except that the step of a call shows one more. Frames are compared with their
arguments, so a call is shown with the same arguments for as long as it lasts.
-/

namespace Stepwise

open Source

/-- Every step of a log, the newest first, stands in relation to the steps before it. -/
def EachAfter (R : List Step → Step → Prop) : List Step → Prop
  | [] => True
  | s :: older => R older s ∧ EachAfter R older

theorem EachAfter.of_append {R : List Step → Step → Prop} :
    ∀ (newer : List Step) {older : List Step}, EachAfter R (newer ++ older) → EachAfter R older
  | [], _, h => h
  | _ :: newer, _, h => of_append newer h.2

theorem EachAfter.stands {R : List Step → Step → Prop} {steps before after : List Step} {s : Step}
    (h : EachAfter R steps.reverse) (hs : steps = before ++ s :: after) : R before.reverse s := by
  rw [hs, List.reverse_append, List.reverse_cons, List.append_assoc] at h
  exact (of_append _ h).1

/-- The calls that the newest step of a log shows, the outermost first. -/
def shown (log : List Step) : List Frame := (log.head?.map Step.callStack).getD []

/-- A step that may follow when these calls were shown last. -/
structure NestsIn (functions : FunctionTable) (stack : List Frame) (s : Step) : Prop where
  other : s.kind ≠ .functionCall → s.callStack <+: stack
  call : s.kind = .functionCall → ∃ outer frame f, s.callStack = outer ++ [frame] ∧
    outer <+: stack ∧ functions.get? frame.function = some f ∧ frame.args = s.bindings ∧
      s.line = f.headerLine

namespace NestsIn

variable {functions : FunctionTable} {stack : List Frame} {s : Step}

theorem length_le (h : NestsIn functions stack s) : s.callStack.length ≤ stack.length + 1 := by
  by_cases hk : s.kind = .functionCall
  · obtain ⟨outer, frame, f, hs, hp, -⟩ := h.call hk
    have := hp.length_le
    simp only [hs, List.length_append, List.length_singleton]
    omega
  · exact Nat.le_succ_of_le (h.other hk).length_le

theorem grows (h : NestsIn functions stack s) (hl : stack.length < s.callStack.length) :
    s.kind = .functionCall ∧ s.callStack.length = stack.length + 1 := by
  refine ⟨?_, Nat.le_antisymm h.length_le hl⟩
  by_contra hk
  have := (h.other hk).length_le
  omega

/-- A call that is still shown, other than one just made, is shown as before. -/
theorem getElem?_eq (h : NestsIn functions stack s) {d : Nat} (hd : d < s.callStack.length)
    (hnew : s.kind = .functionCall → s.callStack.length ≠ d + 1) :
    s.callStack[d]? = stack[d]? := by
  by_cases hk : s.kind = .functionCall
  · obtain ⟨outer, frame, f, hs, ⟨inner, rfl⟩, -⟩ := h.call hk
    have hlen := hnew hk
    simp only [hs, List.length_append, List.length_singleton] at hd hlen
    rw [hs, List.getElem?_append_left (by omega), List.getElem?_append_left (by omega)]
  · obtain ⟨inner, hs⟩ := h.other hk
    rw [← hs, List.getElem?_append_left hd]

end NestsIn

/-- The calls shown by the last of several steps. -/
def lastShown (steps : List Step) : List Frame := shown steps.reverse

/-- The call stacks of a trace are well nested. -/
structure WellNested (functions : FunctionTable) (steps : List Step) : Prop where
  nests : ∀ before s after, steps = before ++ s :: after →
    NestsIn functions (lastShown before) s
  /-- The stack grows at the step of a call only, by one frame. -/
  grows : ∀ before s after, steps = before ++ s :: after →
    (lastShown before).length < s.callStack.length →
      s.kind = .functionCall ∧ s.callStack.length = (lastShown before).length + 1
  /-- A frame stays as it is, arguments included, while the stack does not shrink below it and no
  other call takes its place. -/
  keeps : ∀ before s between t after, steps = before ++ s :: (between ++ t :: after) → ∀ d,
    (∀ u ∈ between ++ [t], d < u.callStack.length ∧
      (u.kind = .functionCall → u.callStack.length ≠ d + 1)) →
        t.callStack[d]? = s.callStack[d]?

theorem shown_concat (before : List Step) (s : Step) : lastShown (before ++ [s]) = s.callStack := by
  simp [lastShown, shown]

section Logs

variable {functions : FunctionTable} {steps : List Step}
  (h : EachAfter (fun older s => NestsIn functions (shown older) s) steps.reverse)
include h

/-- A frame is kept as long as no call is entered at its depth. -/
theorem EachAfter.keeps {s t : Step} {between after : List Step} {d : Nat}
    (hd : ∀ u ∈ between ++ [t], d < u.callStack.length ∧
      (u.kind = .functionCall → u.callStack.length ≠ d + 1)) :
    ∀ {before : List Step}, steps = before ++ s :: (between ++ t :: after) →
      t.callStack[d]? = s.callStack[d]? := by
  induction between generalizing s with
  | nil =>
    intro before hs
    obtain ⟨hlt, hnew⟩ := hd t (by simp)
    have ht : NestsIn functions (lastShown (before ++ [s])) t := h.stands (by simpa using hs)
    rw [shown_concat] at ht
    exact ht.getElem?_eq hlt hnew
  | cons u between ih =>
    intro before hs
    obtain ⟨hlt, hnew⟩ := hd u (by simp)
    have hu : NestsIn functions (lastShown (before ++ [s])) u := h.stands (by simpa using hs)
    rw [shown_concat] at hu
    have hs' : steps = (before ++ [s]) ++ u :: (between ++ t :: after) := by simpa using hs
    rw [← hu.getElem?_eq hlt hnew]
    exact ih (fun v hv => hd v (List.mem_cons_of_mem u hv)) hs'

theorem EachAfter.wellNested : WellNested functions steps where
  nests := fun _ _ _ => h.stands
  grows := fun _ _ _ hs => NestsIn.grows (h.stands hs)
  keeps := fun _ _ _ _ _ hs _ hd => h.keeps hd hs

end Logs

namespace Discipline

/-- The calls under way are among those shown last. -/
def Nested (functions : FunctionTable) (frames : List Frame) (log : List Step) : Prop :=
  EachAfter (fun older s => NestsIn functions (shown older) s) log ∧ frames.reverse <+: shown log

variable {dialect : Dialect} {p : Program}

theorem Nested.step {functions : FunctionTable} {frames : List Frame} {log : List Step}
    (h : Nested functions frames log) (s : Step) (hs : s.callStack = frames.reverse)
    (hk : s.kind ≠ .functionCall) : Nested functions frames (s :: log) :=
  ⟨⟨⟨fun _ => hs ▸ h.2, fun hc => absurd hc hk⟩, h.1⟩, hs ▸ List.prefix_rfl⟩

theorem Nested.leave {functions : FunctionTable} {frame : Frame} {frames : List Frame}
    {log : List Step} (h : Nested functions (frame :: frames) log) :
    Nested functions frames log := by
  obtain ⟨hlog, hp⟩ := h
  rw [List.reverse_cons] at hp
  exact ⟨hlog, (List.prefix_append _ _).trans hp⟩

theorem Nested.call (hp : p.Numbered) {frames : List Frame} {log : List Step} {name : String}
    {f : FunctionDef} {frame : Frame} {s : Step}
    (h : Nested (functionTable dialect p) frames log)
    (hf : (functionTable dialect p).get? name = some f) (hname : frame.function = f.name)
    (hline : s.line = f.headerLine) (hargs : s.bindings = frame.args)
    (hs : s.callStack = (frame :: frames).reverse) (hk : s.kind = .functionCall) :
    Nested (functionTable dialect p) (frame :: frames) (s :: log) := by
  have hget : (functionTable dialect p).get? frame.function = some f := by
    rw [hname, (functionTable_spec hp hf).1]
    exact hf
  refine ⟨⟨⟨fun hne => absurd hk hne, fun _ => ?_⟩, h.1⟩, hs ▸ List.prefix_rfl⟩
  exact ⟨frames.reverse, frame, f, by rw [hs, List.reverse_cons], h.2, hget, hargs.symm, hline⟩

/-- Nesting is a discipline, with no difference between busy, calm and over. -/
def nesting (hp : p.Numbered) : Discipline dialect p where
  Busy := Nested (functionTable dialect p)
  Calm := Nested (functionTable dialect p)
  Over := Nested (functionTable dialect p)
  busy_of_calm := id
  calm_step := fun s h hs hcall _ => h.step s hs hcall
  over_return := fun s h hs hk => h.step s hs (by rw [hk]; decide)
  calm_call := fun _ _ h hf hname hk hline hargs hs => h.call hp hf hname hline hargs hs hk
  busy_of_inner := Nested.leave
  busy_of_over := Nested.leave

end Discipline

theorem nested_steps {dialect : Dialect} {limits : Limits} {source : String} {steps : List Step}
    (h : (traceSteps dialect limits source).result = .ok steps) :
    EachAfter (fun older s =>
      NestsIn (functionTable dialect (layout dialect source.toList)) (shown older) s)
      steps.reverse := by
  have hkept := Discipline.steps_kept
    (D := .nesting (layout_numbered dialect source.toList)) (.inl fun _ _ => id)
    ⟨trivial, List.prefix_rfl⟩ h
  exact hkept.elim And.left And.left

/-- Call stacks in a trace are well nested. -/
theorem traceSteps_wellNested (dialect : Dialect) (limits : Limits) (source : String)
    {steps : List Step} (h : (traceSteps dialect limits source).result = .ok steps) :
    WellNested (functionTable dialect (layout dialect source.toList)) steps :=
  (nested_steps h).wellNested

/-- A call that changes the list it was given. -/
theorem traceSteps_wellNested_append :
    let source := "def f(a):\n    a.append(1)\nf([0])"
    ∃ steps, (traceSteps .indented {} source).result = .ok steps ∧
      (∃ s ∈ steps, s.callStack ≠ []) ∧
        WellNested (functionTable .indented (layout .indented source.toList)) steps := by
  intro source
  have hinside : (traceSteps .indented {} source).result.toOption.any
      (fun steps => steps.any fun s => !s.callStack.isEmpty) = true := by decide +kernel
  obtain ⟨steps, hresult, hcall⟩ := exists_steps hinside
  exact ⟨steps, hresult, by simpa using hcall,
    traceSteps_wellNested .indented {} source hresult⟩

end Stepwise
