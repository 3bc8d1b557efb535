import Stepwise.Proofs.Nesting

/-!
# A return ends its call

No step of a call follows its `return`, however many loops and branches the `return` stands in. The
next step belongs to a call outside of it, or it is the step of a new call; after a `return` outside
of all calls there is none.
-/

namespace Stepwise

open Source

/-- A step that may follow when a call with this stack has returned. -/
structure ResumesFrom (stack : List Frame) (s : Step) : Prop where
  inside : stack ≠ []
  outer : s.callStack <+: stack.dropLast ∨
    (s.kind = .functionCall ∧ ∃ outer frame, s.callStack = outer ++ [frame] ∧
      outer <+: stack.dropLast)

/-- The next step shows fewer calls than the `return`, or as many with a new one. -/
theorem ResumesFrom.length_lt_or {stack : List Frame} {s : Step} (h : ResumesFrom stack s) :
    s.callStack.length < stack.length ∨
      (s.kind = .functionCall ∧ s.callStack.length = stack.length) := by
  have hpos := List.length_pos_iff.2 h.inside
  rcases h.outer with hp | ⟨hk, outer, frame, hs, hp⟩
  · have := hp.length_le
    rw [List.length_dropLast] at this
    omega
  · have := hp.length_le
    rw [List.length_dropLast] at this
    rw [hs, List.length_append, List.length_singleton]
    by_cases hl : outer.length + 1 = stack.length
    · exact .inr ⟨hk, hl⟩
    · omega

/-- Steps of which none goes on with a call that has returned. -/
def ReturnsLast (log : List Step) : Prop :=
  EachAfter (fun older s => ∀ r ∈ older.head?, r.kind = .functionReturn →
    ResumesFrom r.callStack s) log

namespace Discipline

variable {dialect : Dialect} {p : Program}

/-- The innermost call may go on: if the newest step is a `return`, it is that of a call inside. -/
structure Open (frames : List Frame) (log : List Step) : Prop where
  returns : ReturnsLast log
  inner : ∀ r ∈ log.head?, r.kind = .functionReturn →
    r.callStack ≠ [] ∧ frames.reverse <+: r.callStack.dropLast

/-- The newest step is one of the innermost call. -/
structure Closed (frames : List Frame) (log : List Step) : Prop where
  returns : ReturnsLast log
  newest : shown log = frames.reverse

namespace Open

variable {frame : Frame} {frames : List Frame} {log : List Step}

theorem resumes (h : Open frames log) (s : Step)
    (hs : s.callStack = frames.reverse ∨
      (s.kind = .functionCall ∧ ∃ frame, s.callStack = frames.reverse ++ [frame])) :
    ReturnsLast (s :: log) := by
  refine ⟨fun r hr hk => ?_, h.returns⟩
  obtain ⟨hne, hp⟩ := h.inner r hr hk
  rcases hs with hs | ⟨hcall, frame, hs⟩
  · exact ⟨hne, .inl (hs ▸ hp)⟩
  · exact ⟨hne, .inr ⟨hcall, frames.reverse, frame, hs, hp⟩⟩

theorem leave (h : Open (frame :: frames) log) : Open frames log := by
  refine ⟨h.returns, fun r hr hk => ?_⟩
  obtain ⟨hne, hp⟩ := h.inner r hr hk
  rw [List.reverse_cons] at hp
  exact ⟨hne, (List.prefix_append _ _).trans hp⟩

/-- After a step other than a `return` the call it belongs to may go on. -/
theorem of_newest {s : Step} (h : ReturnsLast (s :: log)) (hk : s.kind ≠ .functionReturn) :
    Open frames (s :: log) := by
  refine ⟨h, fun r hr hret => ?_⟩
  cases hr
  exact absurd hret hk

end Open

theorem Closed.leave {frame : Frame} {frames : List Frame} {log : List Step}
    (h : Closed (frame :: frames) log) : Open frames log := by
  refine ⟨h.returns, fun r hr _ => ?_⟩
  have hs : r.callStack = frames.reverse ++ [frame] := by
    have := h.newest
    rw [Option.mem_def] at hr
    simpa [shown, hr] using this
  rw [hs, List.dropLast_concat]
  exact ⟨by simp, List.prefix_rfl⟩

/-- Returns end their calls. Calm and over both mean that the newest step is one of the innermost
call, and the call may go on if that is not a `return`. -/
def returning (dialect : Dialect) (p : Program) : Discipline dialect p where
  Busy := Open
  Calm := fun frames log => Open frames log ∧ Closed frames log
  Over := Closed
  busy_of_calm := And.left
  calm_step := fun s h hs _ hreturn => by
    have hlog := h.resumes s (.inl hs)
    exact ⟨.of_newest hlog hreturn, hlog, by rw [← hs]; rfl⟩
  over_return := fun s h hs _ => ⟨h.resumes s (.inl hs), by rw [← hs]; rfl⟩
  calm_call := fun frame s h _ _ hcall _ _ hs => by
    rw [List.reverse_cons] at hs
    have hlog := h.resumes s (.inr ⟨hcall, frame, hs⟩)
    refine ⟨.of_newest hlog (by rw [hcall]; decide), hlog, ?_⟩
    rw [List.reverse_cons, ← hs]
    rfl
  busy_of_inner := Open.leave
  busy_of_over := Closed.leave

end Discipline

/-- Every `return` of a trace ends its call at once. -/
structure ReturnsEnd (steps : List Step) : Prop where
  /-- Outside of all calls a `return` is the last step. -/
  last : ∀ before r after, steps = before ++ r :: after → r.kind = .functionReturn →
    r.callStack = [] → after = []
  /-- Inside a call the next step belongs to a call outside, or it is that of a new call. -/
  next : ∀ before r after, steps = before ++ r :: after → r.kind = .functionReturn →
    r.callStack ≠ [] → ∃ s rest, after = s :: rest ∧
      (s.callStack <+: r.callStack.dropLast ∨
        (s.kind = .functionCall ∧ ∃ outer frame, s.callStack = outer ++ [frame] ∧
          outer <+: r.callStack.dropLast))
  /-- A later step that shows as many calls belongs to a call made after the `return`. -/
  gone : ∀ before r between u after, steps = before ++ r :: (between ++ u :: after) →
    r.kind = .functionReturn → r.callStack.length ≤ u.callStack.length →
      ∃ c ∈ between ++ [u], c.kind = .functionCall ∧ c.callStack.length = r.callStack.length

section Logs

variable {functions : FunctionTable} {steps : List Step}

/-- To show `n` calls when fewer were shown before, the `n`th one has to be made. -/
theorem EachAfter.exists_call
    (h : EachAfter (fun older s => NestsIn functions (shown older) s) steps.reverse) {n : Nat}
    {u : Step} (hu : n ≤ u.callStack.length) {after : List Step} :
    ∀ {between before : List Step}, steps = before ++ (between ++ u :: after) →
      (lastShown before).length < n →
        ∃ c ∈ between ++ [u], c.kind = .functionCall ∧ c.callStack.length = n
  | [], before, hs, hlt => by
    have hn : NestsIn functions (lastShown before) u := h.stands hs
    obtain ⟨hk, hl⟩ := hn.grows (Nat.lt_of_lt_of_le hlt hu)
    exact ⟨u, by simp, hk, by omega⟩
  | v :: between, before, hs, hlt => by
    by_cases hv : n ≤ v.callStack.length
    · have hn : NestsIn functions (lastShown before) v := h.stands hs
      obtain ⟨hk, hl⟩ := hn.grows (Nat.lt_of_lt_of_le hlt hv)
      exact ⟨v, by simp, hk, by omega⟩
    · have hs' : steps = (before ++ [v]) ++ (between ++ u :: after) := by simpa using hs
      obtain ⟨c, hc, hk⟩ := exists_call h hu hs' (by rw [shown_concat]; omega)
      exact ⟨c, List.mem_cons_of_mem v hc, hk⟩

variable (hr : ReturnsLast steps.reverse)
include hr

theorem ReturnsLast.resumes {before rest : List Step} {r s : Step}
    (hs : steps = before ++ r :: s :: rest) (hk : r.kind = .functionReturn) :
    ResumesFrom r.callStack s := by
  have hs' : steps = (before ++ [r]) ++ s :: rest := by simpa using hs
  exact EachAfter.stands hr hs' r (by simp) hk

/-- Every call ends with a return, and none is under way at the end. -/
theorem ReturnsLast.returnsEnd
    (hn : EachAfter (fun older s => NestsIn functions (shown older) s) steps.reverse)
    (hlast : lastShown steps = []) : ReturnsEnd steps where
  last := by
    rintro before r (_ | ⟨s, rest⟩) hs hk hnil
    · rfl
    · exact absurd hnil (hr.resumes hs hk).inside
  next := by
    rintro before r (_ | ⟨s, rest⟩) hs hk hne
    · rw [hs, shown_concat] at hlast
      exact absurd hlast hne
    · exact ⟨s, rest, rfl, (hr.resumes hs hk).outer⟩
  gone := by
    rintro before r (_ | ⟨v, between⟩) u after hs hk hle
    · rcases (hr.resumes hs hk).length_lt_or with hlt | hcall
      · omega
      · exact ⟨u, by simp, hcall⟩
    · rcases (hr.resumes hs hk).length_lt_or with hlt | hcall
      · have hs' : steps = (before ++ [r] ++ [v]) ++ (between ++ u :: after) := by simpa using hs
        obtain ⟨c, hc, hcall⟩ := hn.exists_call hle hs' (by rwa [shown_concat])
        exact ⟨c, List.mem_cons_of_mem v hc, hcall⟩
      · exact ⟨v, by simp, hcall⟩

end Logs

/-- A `return` ends its call at once, in every trace of a program that has no `return` in the header
of a counting loop. -/
theorem traceSteps_returnsEnd (dialect : Dialect) (limits : Limits) (source : String)
    (hfree : dialect = .braced → Braced.ReturnFree (layout dialect source.toList))
    {steps : List Step} (h : (traceSteps dialect limits source).result = .ok steps) :
    ReturnsEnd steps := by
  have start : (Discipline.returning dialect (layout dialect source.toList)).Calm [] [] :=
    ⟨⟨trivial, by simp⟩, trivial, rfl⟩
  have closed : Discipline.Closed [] steps.reverse :=
    (Discipline.steps_kept (.inr hfree) start h).elim And.right id
  exact ReturnsLast.returnsEnd closed.returns (nested_steps h) closed.newest

/-- A `return` in a counting loop without end. -/
theorem traceSteps_returnsEnd_loop :
    let source := "int f() \x7b\nfor (;1;)\nreturn 1;\n\x7d\nf();"
    ∃ steps, (traceSteps .braced {} source).result = .ok steps ∧
      (∃ s ∈ steps, s.kind = .functionReturn ∧ s.callStack ≠ []) ∧ ReturnsEnd steps := by
  intro source
  have hinside : (traceSteps .braced {} source).result.toOption.any
      (fun steps => steps.any fun s =>
        decide (s.kind = .functionReturn) && !s.callStack.isEmpty) = true := by decide +kernel
  have hfree : Braced.ReturnFree (layout .braced source.toList) := by decide +kernel
  obtain ⟨steps, hresult, hreturn⟩ := exists_steps hinside
  exact ⟨steps, hresult, by simpa using hreturn,
    traceSteps_returnsEnd .braced {} source (fun _ => hfree) hresult⟩

end Stepwise
