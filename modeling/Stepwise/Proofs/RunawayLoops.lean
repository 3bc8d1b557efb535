import Stepwise.Proofs.LineRuns

/-!
# Runaway loops

A loop whose guard stays true is ended by the recorder, at the iteration cap or when too few steps
are left. What an iteration costs is measured from its `loop_check` on, so the steps of calls in the
guard are left out. A loop all of whose iterations record the same number `c` of steps has run
`q` iterations when it finds `r` steps left, with `1 ≤ r ≤ c`, and there it is ended with a step to
spare if `r` is no more than what an iteration records beside its guard (`runaway_loop_truncated`).
That holds if guards record nothing; otherwise it depends on the remainder, and the loop may begin
an iteration for which there is no room (`runaway_loop_overrun`).
-/

namespace Stepwise

open Source Run

/-- A loop as it stands on a line: what is done before it, its guard, what is done in an iteration
and the line after it. -/
structure LoopLine where
  opening : Scope → Run Scope
  guard : List Char
  body : Block
  resume : Nat

/-- The loop on a line: a `while` loop, or a counting loop with its step clause. -/
def loopLine? (dialect : Dialect) (host : Host) (p : Program) (runBlock : Extent → Block)
    (i : Nat) : Option LoopLine :=
  let whileLine (guard : List Char) (body : Block) (resume : Nat) : LoopLine :=
    { opening := fun scope => do
        host.record i .loopStart s!"While loop: {String.ofList guard}" scope
        pure scope
      guard, body, resume }
  match dialect with
  | .indented =>
    match Indented.shape (p.line i).text with
    | .whileLoop guard => some (whileLine guard (runBlock (p.body i)) (p.body i).stop)
    | _ => none
  | .braced =>
    match Braced.shape (p.line i).text with
    | .forLoop header =>
      let body := Braced.bodyAt p i header.rest
      some
        { opening := fun scope => do
            let scope ←
              if header.init.isEmpty then pure scope
              else do pure (← Braced.statements host i header.init scope).scope
            host.record i .loopStart s!"For loop: {String.ofList header.all}" scope
            pure scope
          guard := if header.test.isEmpty then ['1'] else header.test
          body := fun scope => do
            let flow ← Braced.runBody host runBlock body scope
            flow.andThen fun scope => do
              pure { scope := ← Braced.advance host i (splitCommas header.step) scope }
          resume := body.resume }
    | .whileLoop guard rest =>
      let body := Braced.bodyAt p i rest
      some (whileLine guard (Braced.runBody host runBlock body) body.resume)
    | _ => none

/-- A line with a loop does what opens it, runs the loop and goes on behind it. -/
theorem runLine_loop {dialect : Dialect} {host : Host} {p : Program} {runBlock : Extent → Block}
    {i : Nat} {L : LoopLine} (h : loopLine? dialect host p runBlock i = some L) (scope : Scope) :
    semanticsOf dialect host p runBlock i scope =
      L.opening scope >>= fun scope =>
        Loop.run host i L.guard L.body scope >>= fun flow => pure (L.resume, flow) := by
  rw [semanticsOf_eq]
  cases dialect with
  | indented =>
    simp only [loopLine?] at h
    split at h
    · rename_i guard hshape
      cases h
      simp only [runLineBy, Indented.runLineBy, hshape, bind_assoc, pure_bind]
    · cases h
  | braced =>
    simp only [loopLine?] at h
    split at h
    · rename_i header hshape
      cases h
      simp only [runLineBy, Braced.runLineBy, Braced.runForBy, hshape]
      split_ifs <;> simp only [bind_assoc, pure_bind]
    · rename_i guard rest hshape
      cases h
      simp only [runLineBy, Braced.runLineBy, hshape, bind_assoc, pure_bind]
    · cases h

section Turns

variable (host : Host) (line : Nat) (L : LoopLine)

/-- An iteration that goes through, from one check of the recorder to the next. The guard is true
and records `guardSteps` steps; then there is the `loop_check`, and the rest records `bodySteps`
steps and does not return. -/
structure Turn (number guardSteps bodySteps : Nat) (scope : Scope) (m : Machine) (scope' : Scope)
    (m' : Machine) : Prop where
  passes : ∃ v checked started,
    (host.evaluateText scope L.guard).outcome m = (.ok v, checked) ∧
    checked.heap.isTrue v = true ∧
    checked.recorder.stepCount = m.recorder.stepCount + guardSteps ∧
    (host.record line .loopCheck
      s!"{String.ofList L.guard} → True (iteration {number + 1})" scope).outcome checked =
        (.ok (), started) ∧
    (L.body scope).outcome started = (.ok { scope := scope' }, m') ∧
    m'.recorder.stepCount = started.recorder.stepCount + bodySteps

variable (guardSteps bodySteps : Nat → Nat) (scope₀ : Scope) (m₀ : Machine)

/-- The variables and the machine after so many iterations. -/
inductive AfterTurns : Nat → Scope → Machine → Prop
  | start : AfterTurns 0 scope₀ m₀
  | next {k : Nat} {scope scope' : Scope} {m m' : Machine} : AfterTurns k scope m →
      Turn host line L k (guardSteps k) (bodySteps k) scope m scope' m' →
      AfterTurns (k + 1) scope' m'

/-- A loop whose guard stays true: entered with more than `c` steps free, and every iteration that
begins with more than `c` steps free goes through and records `c` steps. -/
structure Runaway (c : Nat) : Prop where
  total : ∀ k, guardSteps k + 1 + bodySteps k = c
  room : (c : Int) < host.limits.maxSteps - m₀.recorder.stepCount
  turns : ∀ k scope m, AfterTurns host line L guardSteps bodySteps scope₀ m₀ k scope m →
    (c : Int) < host.limits.maxSteps - m.recorder.stepCount →
      ∃ scope' m', Turn host line L k (guardSteps k) (bodySteps k) scope m scope' m'

end Turns

section Rounds

variable {host : Host} {line : Nat} {L : LoopLine} {guardSteps bodySteps : Nat → Nat}
  {scope₀ : Scope} {m₀ : Machine} {c : Nat}

theorem record_stepCount {kind : StepKind} {explanation : Text} {scope : Scope} {m m' : Machine}
    (h : (host.record line kind explanation scope).outcome m = (.ok (), m')) :
    m'.recorder.stepCount = m.recorder.stepCount + 1 := by
  rw [Host.record, Record.outcome_step] at h
  split_ifs at h
  · cases h
  · split at h
    · cases h
    · cases h
      rfl

theorem Turn.stepCount {number g b : Nat} {scope scope' : Scope} {m m' : Machine}
    (h : Turn host line L number g b scope m scope' m') :
    m'.recorder.stepCount = m.recorder.stepCount + (g + 1 + b) := by
  obtain ⟨v, checked, started, -, -, hguard, hrecord, -, hbody⟩ := h.passes
  have := record_stepCount hrecord
  omega

theorem AfterTurns.stepCount (htotal : ∀ k, guardSteps k + 1 + bodySteps k = c) {k : Nat}
    {scope : Scope} {m : Machine}
    (h : AfterTurns host line L guardSteps bodySteps scope₀ m₀ k scope m) :
    m.recorder.stepCount = m₀.recorder.stepCount + k * c := by
  induction h with
  | start => simp
  | next _ hturn ih => rw [hturn.stepCount, ih, htotal, Nat.succ_mul, Nat.add_assoc]

/-- An iteration is begun, and its cost is measured from its `loop_check` on. -/
theorem whileTrue_turn {k g b cost : Nat} {scope scope' : Scope} {m m' : Machine}
    (h : Turn host line L k g b scope m scope' m') (hcap : k < host.limits.maxLoopIterations)
    (hroom : cost < host.limits.maxSteps - m.recorder.stepCount) (more : Nat) :
    (Loop.whileTrue host line L.guard L.body (more + 1) k cost scope).outcome m =
      (Loop.whileTrue host line L.guard L.body more (k + 1) (b + 1) scope').outcome m' := by
  obtain ⟨v, checked, started, heval, htrue, -, hrecord, hbody, hsteps⟩ := h.passes
  have hcontinue := Record.outcome_continueLoop host.limits line k cost m
  rw [if_neg (Int.not_le.2 hcap), if_neg (Int.not_le.2 hroom)] at hcontinue
  have hcost : m'.recorder.stepCount - checked.recorder.stepCount = b + 1 := by
    have := record_stepCount hrecord
    omega
  rw [Loop.whileTrue, outcome_bind_ok hcontinue, if_pos rfl, outcome_bind_ok heval]
  dsimp only
  rw [outcome_bind_ok (outcome_isTrue v checked), if_pos htrue,
    outcome_bind_ok (outcome_stepCount checked), outcome_bind_ok hrecord, outcome_bind_ok hbody,
    outcome_bind_ok (outcome_stepCount m')]
  dsimp only [Flow.andThen]
  rw [hcost]

/-- The loop ends where the recorder says so. -/
theorem whileTrue_stops {k cost : Nat} {m m' : Machine}
    (h : (Record.continueLoop host.limits line k cost).outcome m = (.ok false, m'))
    (more : Nat) (scope : Scope) :
    (Loop.whileTrue host line L.guard L.body more k cost scope).outcome m =
      (.ok { scope }, m') := by
  cases more with
  | zero => rw [Loop.whileTrue, outcome_bind_ok h]; rfl
  | succ more => rw [Loop.whileTrue, outcome_bind_ok h]; rfl

/-- The cost that an iteration is expected to have: one step for the first, then that of the one
before it. -/
def expectedCost (bodySteps : Nat → Nat) : Nat → Nat
  | 0 => 1
  | k + 1 => bodySteps k + 1

/-- As long as more than `c` steps are free, the loop goes through its iterations. -/
theorem Runaway.exists_after (h : Runaway host line L guardSteps bodySteps scope₀ m₀ c) :
    ∀ n : Nat, n ≤ host.limits.maxLoopIterations.toNat →
      (∀ k < n, (c : Int) < host.limits.maxSteps - (m₀.recorder.stepCount + k * c : Nat)) →
      ∃ scope m, AfterTurns host line L guardSteps bodySteps scope₀ m₀ n scope m ∧
        (Loop.run host line L.guard L.body scope₀).outcome m₀ =
          (Loop.whileTrue host line L.guard L.body (host.limits.maxLoopIterations.toNat - n) n
            (expectedCost bodySteps n) scope).outcome m
  | 0, _, _ => ⟨scope₀, m₀, .start, rfl⟩
  | n + 1, hcap, hroom => by
    obtain ⟨scope, m, hafter, hrun⟩ := h.exists_after n (by omega) fun k hk => hroom k (by omega)
    have hfree := hroom n (Nat.lt_succ_self n)
    rw [← hafter.stepCount h.total] at hfree
    obtain ⟨scope', m', hturn⟩ := h.turns n scope m hafter hfree
    refine ⟨scope', m', hafter.next hturn, hrun.trans ?_⟩
    have hcost : expectedCost bodySteps n ≤ c := by
      cases n with
      | zero => have := h.total 0; simp only [expectedCost]; omega
      | succ k => have := h.total k; simp only [expectedCost]; omega
    have hmore : host.limits.maxLoopIterations.toNat - n =
        host.limits.maxLoopIterations.toNat - (n + 1) + 1 := by omega
    rw [hmore]
    exact whileTrue_turn hturn (by omega) (by omega) _

/-- Why the recorder ended a loop after `n` iterations, and that it left a step to spare. -/
structure EndedBy (limits : Limits) (line n : Nat) (m : Machine) (w : Warning) : Prop where
  spare : m.recorder.stepCount < limits.maxSteps
  reason : w = .iterationCap (line + 1) n ∧ limits.maxLoopIterations ≤ n ∨
    w = .stepReserve (line + 1) n m.recorder.stepCount limits.maxSteps

/-- A loop that does not end by itself stops at its cap, or where no iteration would fit. -/
theorem Runaway.run_ends (h : Runaway host line L guardSteps bodySteps scope₀ m₀ c) {free : Nat}
    (hfree : host.limits.maxSteps - m₀.recorder.stepCount = free)
    (hleft : host.limits.maxLoopIterations.toNat ≤ (free - 1) / c ∨
      (free - 1) % c + 1 + guardSteps ((free - 1) / c - 1) ≤ c) :
    ∃ n scope' m' w, AfterTurns host line L guardSteps bodySteps scope₀ m₀ n scope' m' ∧
      (Loop.run host line L.guard L.body scope₀).outcome m₀ = (.ok { scope := scope' }, m'.warn w) ∧
      EndedBy host.limits line n m' w := by
  have htotal := h.total 0
  have hroom := h.room
  have hdiv := Nat.div_add_mod' (free - 1) c
  have hmod := Nat.mod_lt (free - 1) (show 0 < c by omega)
  have hrounds : 1 ≤ (free - 1) / c := (Nat.one_le_div_iff (by omega)).2 (by omega)
  revert hleft hdiv hmod hrounds
  generalize (free - 1) / c = rounds, (free - 1) % c = left
  intro hleft hdiv hmod hrounds
  have hspent {k : Nat} (hk : k ≤ rounds) : k * c ≤ rounds * c := Nat.mul_le_mul_right c hk
  have hmore {n : Nat} (hn : n ≤ rounds) (k : Nat) (hk : k < n) :
      (c : Int) < host.limits.maxSteps - (m₀.recorder.stepCount + k * c : Nat) := by
    have := hspent (k := k + 1) (by omega)
    rw [Nat.succ_mul] at this
    omega
  rcases Nat.lt_or_ge rounds host.limits.maxLoopIterations.toNat with hcap | hcap
  · -- The steps run short first. The check that finds this comes after at least one iteration.
    obtain ⟨scope, m, hafter, hrun⟩ := h.exists_after rounds (by omega) (hmore (Nat.le_refl _))
    have hcount := hafter.stepCount h.total
    obtain ⟨k, rfl⟩ : ∃ k, rounds = k + 1 := ⟨rounds - 1, by omega⟩
    have htotal := h.total k
    rw [Nat.add_sub_cancel] at hleft
    have hcontinue := Record.outcome_continueLoop host.limits line (k + 1 : Nat)
      (expectedCost bodySteps (k + 1)) m
    rw [if_neg (by omega), if_pos (by simp only [expectedCost]; omega)] at hcontinue
    exact ⟨k + 1, scope, m, _, hafter, hrun.trans (whileTrue_stops hcontinue _ scope), by omega,
      .inr rfl⟩
  · obtain ⟨scope, m, hafter, hrun⟩ := h.exists_after _ (Nat.le_refl _) (hmore hcap)
    have hcount := hafter.stepCount h.total
    have := hspent hcap
    have hcontinue := Record.outcome_continueLoop host.limits line
      host.limits.maxLoopIterations.toNat
      (expectedCost bodySteps host.limits.maxLoopIterations.toNat) m
    rw [if_pos (by omega)] at hcontinue
    exact ⟨_, scope, m, _, hafter, hrun.trans (whileTrue_stops hcontinue _ scope), by omega,
      .inl ⟨rfl, by omega⟩⟩

end Rounds

/-- A runaway loop of either dialect with iterations of `c` steps, entered with `free` steps left,
is ended at the iteration cap or when steps run short, and leaves a step to spare: unless the steps
that are left after `(free - 1) / c` iterations are more than an iteration records beside its guard.
They are not if the guard records nothing. -/
theorem runaway_loop_truncated {dialect : Dialect} {host : Host} {p : Program}
    {runBlock : Extent → Block} {i : Nat} {L : LoopLine}
    (hL : loopLine? dialect host p runBlock i = some L) {scope scope₀ : Scope} {m m₀ : Machine}
    (hopen : (L.opening scope).outcome m = (.ok scope₀, m₀)) {guardSteps bodySteps : Nat → Nat}
    {c free : Nat} (h : Runaway host i L guardSteps bodySteps scope₀ m₀ c)
    (hfree : host.limits.maxSteps - m₀.recorder.stepCount = free)
    (hleft : host.limits.maxLoopIterations.toNat ≤ (free - 1) / c ∨
      (free - 1) % c + 1 + guardSteps ((free - 1) / c - 1) ≤ c) :
    ∃ n scope' m' w, AfterTurns host i L guardSteps bodySteps scope₀ m₀ n scope' m' ∧
      (semanticsOf dialect host p runBlock i scope).outcome m =
        (.ok (L.resume, { scope := scope' }), m'.warn w) ∧
      EndedBy host.limits i n m' w := by
  obtain ⟨n, scope', m', w, hafter, hrun, hended⟩ := h.run_ends hfree hleft
  refine ⟨n, scope', m', w, hafter, ?_, hended⟩
  rw [runLine_loop hL, outcome_bind_ok hopen, outcome_bind_ok hrun]
  rfl

section Examples

variable {host : Host} {line : Nat} {L : LoopLine} {guardSteps bodySteps : Nat → Nat}
  {scope₀ : Scope} {m₀ : Machine} {c : Nat}

/-- With room for one iteration but not for two beside the check between them, one iteration is all
that has to go through. -/
theorem Runaway.of_turn (htotal : ∀ k, guardSteps k + 1 + bodySteps k = c)
    (hroom : (c : Int) < host.limits.maxSteps - m₀.recorder.stepCount)
    (hfew : host.limits.maxSteps - m₀.recorder.stepCount ≤ 2 * c) {scope' : Scope} {m' : Machine}
    (hturn : Turn host line L 0 (guardSteps 0) (bodySteps 0) scope₀ m₀ scope' m') :
    Runaway host line L guardSteps bodySteps scope₀ m₀ c := by
  refine ⟨htotal, hroom, fun k scope m hafter hfree => ?_⟩
  cases hafter with
  | start => exact ⟨scope', m', hturn⟩
  | next hbefore hlast =>
    have hcount := (hbefore.next hlast).stepCount htotal
    rw [Nat.succ_mul] at hcount
    omega

/-- Whether an iteration goes through. -/
def Turn.test (host : Host) (line : Nat) (L : LoopLine) (number guardSteps bodySteps : Nat)
    (scope : Scope) (m : Machine) : Bool :=
  match (host.evaluateText scope L.guard).outcome m with
  | (.error _, _) => false
  | (.ok v, checked) =>
    match (host.record line .loopCheck
      s!"{String.ofList L.guard} → True (iteration {number + 1})" scope).outcome checked with
    | (.error _, _) => false
    | (.ok _, started) =>
      match (L.body scope).outcome started with
      | (.error _, _) => false
      | (.ok flow, m') =>
        checked.heap.isTrue v && flow.returned.isNone &&
          checked.recorder.stepCount == m.recorder.stepCount + guardSteps &&
          m'.recorder.stepCount == started.recorder.stepCount + bodySteps

/-- A turn of a loop can be tested by running it. -/
theorem Turn.of_test {number g b : Nat} {scope : Scope} {m : Machine}
    (h : test host line L number g b scope m = true) :
    ∃ scope' m', Turn host line L number g b scope m scope' m' := by
  unfold test at h
  split at h
  · cases h
  rename_i v checked heval
  split at h
  · cases h
  rename_i started hrecord
  split at h
  · cases h
  rename_i flow m' hbody
  simp only [Bool.and_eq_true, beq_iff_eq, Option.isNone_iff_eq_none] at h
  obtain ⟨⟨⟨htrue, hnone⟩, hguard⟩, hsteps⟩ := h
  obtain ⟨scope', returned⟩ := flow
  cases hnone
  exact ⟨scope', m', v, checked, started, heval, htrue, hguard, hrecord, hbody, hsteps⟩

/-- A loop with room for one iteration only is runaway if that iteration goes through. -/
theorem exists_runaway {dialect : Dialect} {p : Program} {runBlock : Extent → Block} {i : Nat}
    {scope : Scope} {m : Machine} {g b free : Nat} (hroom : g + 1 + b < free)
    (hfew : free ≤ 2 * (g + 1 + b))
    (h : (loopLine? dialect host p runBlock i).any (fun L =>
      match (L.opening scope).outcome m with
      | (.error _, _) => false
      | (.ok scope₀, m₀) => host.limits.maxSteps - m₀.recorder.stepCount == (free : Int) &&
          Turn.test host i L 0 g b scope₀ m₀) = true) :
    ∃ L scope₀ m₀, loopLine? dialect host p runBlock i = some L ∧
      (L.opening scope).outcome m = (.ok scope₀, m₀) ∧
      host.limits.maxSteps - m₀.recorder.stepCount = (free : Int) ∧
      Runaway host i L (fun _ => g) (fun _ => b) scope₀ m₀ (g + 1 + b) := by
  rw [Option.any_eq_true] at h
  obtain ⟨L, hL, h⟩ := h
  split at h
  · cases h
  rename_i scope₀ m₀ hopen
  simp only [Bool.and_eq_true, beq_iff_eq] at h
  obtain ⟨scope', m', hturn⟩ := Turn.of_test h.2
  exact ⟨L, scope₀, m₀, hL, hopen, h.1,
    .of_turn (fun _ => rfl) (by omega) (by omega) hturn⟩

/-- Two steps in the guard and two more in every iteration, and six free steps. -/
theorem runaway_loop_truncated_call :
    let p := layout .indented "def f():\n    return 1\nwhile f():\n    x = 1".toList
    let host := hostOf .indented (semanticsOf .indented) p { maxSteps := 7 }
    let runBlock := runBlock p (semanticsOf .indented host p) p.size
    ∃ next scope' m' n w, (semanticsOf .indented host p runBlock 2 Table.empty).outcome {} =
        (.ok (next, { scope := scope' }), m'.warn w) ∧ EndedBy host.limits 2 n m' w := by
  intro p host runBlock
  obtain ⟨L, scope₀, m₀, hL, hopen, hfree, hrunaway⟩ : ∃ L scope₀ m₀,
      loopLine? .indented host p runBlock 2 = some L ∧
      (L.opening Table.empty).outcome {} = (.ok scope₀, m₀) ∧
      host.limits.maxSteps - m₀.recorder.stepCount = (6 : Nat) ∧
      Runaway host 2 L (fun _ => 2) (fun _ => 1) scope₀ m₀ 4 :=
    exists_runaway (by decide) (by decide) (by decide +kernel)
  obtain ⟨n, scope', m', w, -, hrun, hended⟩ :=
    runaway_loop_truncated hL hopen hrunaway hfree (.inr (by decide))
  exact ⟨_, scope', m', n, w, hrun, hended⟩

/-- With seven free steps the same loop begins an iteration for which there is no room. -/
theorem runaway_loop_overrun :
    let p := layout .indented "def f():\n    return 1\nwhile f():\n    x = 1".toList
    let host := hostOf .indented (semanticsOf .indented) p { maxSteps := 8 }
    let runBlock := runBlock p (semanticsOf .indented host p) p.size
    (∃ L scope₀ m₀, loopLine? .indented host p runBlock 2 = some L ∧
      (L.opening Table.empty).outcome {} = (.ok scope₀, m₀) ∧
      Runaway host 2 L (fun _ => 2) (fun _ => 1) scope₀ m₀ 4) ∧
    ∃ m', (semanticsOf .indented host p runBlock 2 Table.empty).outcome {} =
      (.error (.stepBudget 8), m') := by
  intro p host runBlock
  refine ⟨?_, ?_⟩
  · obtain ⟨L, scope₀, m₀, hL, hopen, -, hrunaway⟩ : ∃ L scope₀ m₀,
        loopLine? .indented host p runBlock 2 = some L ∧
        (L.opening Table.empty).outcome {} = (.ok scope₀, m₀) ∧
        host.limits.maxSteps - m₀.recorder.stepCount = (7 : Nat) ∧
        Runaway host 2 L (fun _ => 2) (fun _ => 1) scope₀ m₀ 4 :=
      exists_runaway (by decide) (by decide) (by decide +kernel)
    exact ⟨L, scope₀, m₀, hL, hopen, hrunaway⟩
  · have hover : (match ((semanticsOf .indented host p runBlock 2 Table.empty).outcome {}).1 with
        | .error fault => fault == .stepBudget 8
        | .ok _ => false) = true := by
      decide +kernel
    rcases hr : (semanticsOf .indented host p runBlock 2 Table.empty).outcome {}
      with ⟨fault | _, m'⟩ <;> rw [hr] at hover
    · exact ⟨m', by rw [beq_iff_eq.1 hover]⟩
    · cases hover

end Examples

end Stepwise
