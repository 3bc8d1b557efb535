import Stepwise.Proofs.LineRuns

/-!
# Unrolling a run

Blocks run lines, lines run blocks, loops and calls, and calls run blocks again. `unroll` is one
layer of this recursion, without any bound on it. Unrolled often enough it gives the runs of the
program, whatever stands at the bottom (`program_unroll`): going on to a later line takes one layer,
and every iteration and every call records a step first, of which there are only `maxSteps`.
-/

namespace Stepwise

open Source Text Run

variable {α β : Type}

/-- The second machine has all steps of the first one and the same calls under way. -/
structure Machine.Follows (m m' : Machine) : Prop where
  log : m.recorder.log <:+ m'.recorder.log
  stepCount : m.recorder.stepCount ≤ m'.recorder.stepCount
  frames : m'.recorder.frames = m.recorder.frames

namespace Machine.Follows

theorem refl (m : Machine) : m.Follows m := ⟨List.suffix_rfl, Nat.le_refl _, rfl⟩

theorem trans {m m' m'' : Machine} (h : m.Follows m') (h' : m'.Follows m'') : m.Follows m'' :=
  ⟨h.log.trans h'.log, Nat.le_trans h.stepCount h'.stepCount, h'.frames.trans h.frames⟩

theorem of_quiet {x : Run α} (h : Quiet x) (m : Machine) : m.Follows (x.outcome m).2 :=
  ⟨(h m).log ▸ List.suffix_rfl, Nat.le_of_eq (h m).stepCount.symm, (h m).frames⟩

theorem step (limits : Limits) (line : Int) (kind : StepKind) (explanation : Text) (scope : Scope)
    (m : Machine) : m.Follows ((Record.step limits line kind explanation scope).outcome m).2 := by
  rw [Record.outcome_step]
  split_ifs
  · exact ⟨List.suffix_rfl, Nat.le_succ _, rfl⟩
  · cases m.heap.snapshotScope scope with
    | error => exact ⟨List.suffix_rfl, Nat.le_succ _, rfl⟩
    | ok => exact ⟨List.suffix_cons _ _, Nat.le_succ _, rfl⟩

theorem continueLoop (limits : Limits) (line iteration cost : Int) (m : Machine) :
    m.Follows ((Record.continueLoop limits line iteration cost).outcome m).2 := by
  rw [Record.outcome_continueLoop]
  split_ifs <;> exact ⟨List.suffix_rfl, Nat.le_refl _, rfl⟩

end Machine.Follows

/-- A property of machines that a run does not lose. -/
def Lasting (P : Machine → Prop) : Prop := ∀ {m m' : Machine}, P m → m.Follows m' → P m'

theorem Machine.Follows.lasting (m : Machine) : Lasting m.Follows := Machine.Follows.trans

/-- On the machines that satisfy `P`, two computations do the same, and keep the steps and the calls
under way. -/
def Steady (P : Machine → Prop) (x y : Run α) : Prop :=
  ∀ m, P m → y.outcome m = x.outcome m ∧ m.Follows (x.outcome m).2

namespace Steady

variable {P : Machine → Prop}

theorem bind (hP : Lasting P) {x y : Run α} {f g : α → Run β} (h : Steady P x y)
    (hf : ∀ a, Returns x a → Steady P (f a) (g a)) : Steady P (x >>= f) (y >>= g) := by
  intro m hm
  obtain ⟨hy, hF⟩ := h m hm
  rcases hx : x.outcome m with ⟨fault | a, m₁⟩ <;> rw [hx] at hy hF
  · rw [outcome_bind_error hx, outcome_bind_error hy]
    exact ⟨rfl, hF⟩
  · rw [outcome_bind_ok hx, outcome_bind_ok hy]
    obtain ⟨hg, hF'⟩ := hf a ⟨m, m₁, hx⟩ m₁ (hP hm hF)
    exact ⟨hg, hF.trans hF'⟩

theorem recover {x y : Run Value} (h : Steady P x y) :
    Steady P (Run.recover x) (Run.recover y) := by
  intro m hm
  obtain ⟨hy, hF⟩ := h m hm
  rw [outcome_recover, outcome_recover, hy]
  refine ⟨rfl, ?_⟩
  rcases hx : x.outcome m with ⟨fault | v, m₁⟩ <;> rw [hx] at hF <;> exact hF

end Steady

/-- Steady computations are alike. -/
def steadiness (limits : Limits) {P : Machine → Prop} (hP : Lasting P) :
    Likeness limits limits where
  Lines := Eq
  Rel := Steady P
  bindReturned := Steady.bind hP
  quiet := fun h m _ => ⟨rfl, .of_quiet h.quiet m⟩
  recover := Steady.recover
  step := fun hline kind explanation scope m _ =>
    ⟨hline ▸ rfl, .step limits _ kind explanation scope m⟩
  continueLoop := fun hline iteration cost m _ =>
    ⟨hline ▸ rfl, .continueLoop limits _ iteration cost m⟩

/-- Machines that have counted at least `count` steps and are inside `depth` calls. -/
def From (count depth : Nat) (m : Machine) : Prop :=
  count ≤ m.recorder.stepCount ∧ m.recorder.frames.length = depth

theorem From.lasting (count depth : Nat) : Lasting (From count depth) :=
  fun h hF => ⟨Nat.le_trans h.1 hF.stepCount, by rw [hF.frames, h.2]⟩

/-- Steady computations from `count` steps on and inside `depth` calls are alike. -/
def steadyFrom (limits : Limits) (count depth : Nat) : Likeness limits limits :=
  steadiness limits (From.lasting count depth)

namespace Steady

variable {count depth : Nat} {limits : Limits}

theorem mono {count' : Nat} (hc : count ≤ count') {x y : Run α}
    (h : Steady (From count depth) x y) :
    Steady (From count' depth) x y :=
  fun m hm => h m ⟨Nat.le_trans hc hm.1, hm.2⟩

/-- What follows a recorded step starts with one more step, if there is still room for it. -/
theorem step_bind {line : Int} {kind : StepKind} {explanation : Text} {scope : Scope}
    {f g : Unit → Run α}
    (h : count < limits.maxSteps.toNat → Steady (From (count + 1) depth) (f ()) (g ())) :
    Steady (From count depth) (Record.step limits line kind explanation scope >>= f)
      (Record.step limits line kind explanation scope >>= g) := by
  rintro m ⟨hm, hk⟩
  have hF := Machine.Follows.step limits line kind explanation scope m
  have hs := Record.outcome_step limits line kind explanation scope m
  by_cases hb : limits.maxSteps < (m.recorder.stepCount + 1 : Nat)
  · rw [if_pos hb] at hs
    rw [hs] at hF
    rw [outcome_bind_error hs, outcome_bind_error hs]
    exact ⟨rfl, hF⟩
  · rw [if_neg hb] at hs
    cases hsnap : m.heap.snapshotScope scope with
    | error fault =>
      simp only [hsnap] at hs
      rw [hs] at hF
      rw [outcome_bind_error hs, outcome_bind_error hs]
      exact ⟨rfl, hF⟩
    | ok bindings =>
      simp only [hsnap] at hs
      rw [hs] at hF
      rw [outcome_bind_ok hs, outcome_bind_ok hs]
      obtain ⟨hg, hF'⟩ := h (by omega) (m.recorded line kind explanation bindings)
        ⟨Nat.succ_le_succ hm, hk⟩
      exact ⟨hg, hF.trans hF'⟩

/-- The body of a function is reached with one more step, inside one more call. -/
theorem enter {function : String} {params : List String} {line : Int} {args : List Value}
    {explanation : Text} {body body' : Scope → Run α}
    (h : depth < limits.maxCallDepth.toNat → count < limits.maxSteps.toNat →
      ∀ scope, Steady (From (count + 1) (depth + 1)) (body scope) (body' scope)) :
    Steady (From count depth) (Record.enter limits function params line args explanation body)
      (Record.enter limits function params line args explanation body') := by
  rintro m ⟨hm, hk⟩
  rw [Record.outcome_enter, Record.outcome_enter]
  by_cases hd : limits.maxCallDepth ≤ m.recorder.frames.length
  · rw [if_pos hd, if_pos hd]
    exact ⟨rfl, .refl m⟩
  rw [if_neg hd, if_neg hd]
  cases m.heap.snapshotScope (Record.bindParams params args) with
  | error fault => exact ⟨rfl, .refl m⟩
  | ok shown =>
    have hb : Steady (From count (depth + 1))
        (Record.step limits line .functionCall explanation (Record.bindParams params args) >>=
          fun _ => body (Record.bindParams params args))
        (Record.step limits line .functionCall explanation (Record.bindParams params args) >>=
          fun _ => body' (Record.bindParams params args)) :=
      step_bind fun hc => h (by omega) hc _
    obtain ⟨hy, hF⟩ := hb (m.push ⟨function, shown⟩) ⟨hm, congrArg Nat.succ hk⟩
    dsimp only
    rw [hy]
    refine ⟨rfl, ?_⟩
    rcases hx : (Record.step limits line .functionCall explanation (Record.bindParams params args)
        >>= fun _ => body (Record.bindParams params args)).outcome (m.push ⟨function, shown⟩)
      with ⟨fault | a, m₁⟩ <;> rw [hx] at hF <;>
      exact ⟨hF.log, hF.stepCount, congrArg List.tail hF.frames⟩

end Steady

/-- How blocks, loops and calls are run. A loop is given with the number of iterations it has done
and the cost of the last one. -/
structure Unrolling where
  block : Extent → Block
  loop : Nat → List Char → Block → Nat → Nat → Block
  call : String → List Value → Run Value

section Layers

variable (dialect : Dialect) (limits : Limits) (p : Program)

/-- One layer of a run: what blocks, loops and calls do, given how the ones inside them are run. -/
def unroll (inner : Unrolling) : Unrolling :=
  let host : Host := { dialect, limits, call := inner.call }
  { block := fun extent scope =>
      let i := p.nextStatement extent.start extent.depth
      if i < extent.stop ∧ extent.depth ≤ (p.line i).depth then do
        let loop : LoopRunner := fun line guard body => inner.loop line guard body 0 1
        let (next, flow) ← runLineBy dialect loop host p inner.block i scope
        flow.andThen (inner.block { extent with start := next })
      else pure { scope }
    loop := fun line guard body iteration cost scope => do
      if ← Record.continueLoop limits line iteration cost then
        let v ← host.evaluateText scope guard
        let shown := String.ofList guard
        if ← isTrue v then
          let before ← stepCount
          host.record line .loopCheck s!"{shown} → True (iteration {iteration + 1})" scope
          let flow ← body scope
          let cost := (← stepCount) - before
          flow.andThen (inner.loop line guard body (iteration + 1) cost)
        else
          host.record line .conditionFalse s!"{shown} → False, loop ended" scope
          pure { scope }
      else pure { scope }
    call := enterFunction dialect (functionTable dialect p) limits fun f scope => do
      let flow ← inner.block f.body scope
      pure (flow.returned.getD .none) }

/-- How many layers the steps that are still to come can take. -/
def layersLeft (count : Nat) : Nat := (limits.maxSteps.toNat - count) * (p.size + 3)

theorem layersLeft_eq {count : Nat} (h : count < limits.maxSteps.toNat) :
    layersLeft limits p count = layersLeft limits p (count + 1) + (p.size + 3) := by
  unfold layersLeft
  rw [← Nat.succ_mul]
  congr 1
  omega

/-- The host of a program where `room` calls may still nest. -/
def hostWithRoom (room : Nat) : Host :=
  { dialect, limits
    call := callFunction dialect (semanticsOf dialect) p (functionTable dialect p) limits room }

/-- As far as `n` layers reach, blocks, loops and calls are those of the program. -/
structure Reaches (n : Nat) (u : Unrolling) : Prop where
  call : ∀ {count depth room : Nat}, layersLeft limits p count + 1 ≤ n →
    limits.maxCallDepth.toNat ≤ room + depth → ∀ name args,
      Steady (From count depth) (u.call name args)
        ((hostWithRoom dialect limits p room).call name args)
  loop : ∀ {count depth room : Nat} {body body' : Block}, layersLeft limits p count + 2 ≤ n →
    limits.maxCallDepth.toNat ≤ room + depth →
    (∀ scope, Steady (From count depth) (body scope) (body' scope)) →
    ∀ {iteration more : Nat}, limits.maxLoopIterations.toNat ≤ iteration + more →
    ∀ line guard cost scope, Steady (From count depth) (u.loop line guard body iteration cost scope)
      (Loop.whileTrue (hostWithRoom dialect limits p room) line guard body' more iteration cost
        scope)
  block : ∀ {count depth room fuel : Nat} {extent : Extent},
    layersLeft limits p count + 3 + (p.size - extent.start) ≤ n →
    limits.maxCallDepth.toNat ≤ room + depth → extent.stop ≤ p.size →
    p.size ≤ extent.start + fuel → ∀ scope, Steady (From count depth) (u.block extent scope)
      (runBlock p (semanticsOf dialect (hostWithRoom dialect limits p room) p) fuel extent scope)

variable {dialect limits p} {n : Nat} {u : Unrolling} (hu : Reaches dialect limits p n u)
  {count depth room : Nat} (hroom : limits.maxCallDepth.toNat ≤ room + depth)
include hu hroom

/-- Calls are those of the program, as far as the layers reach. -/
theorem Reaches.unroll_call (hp : p.Numbered) (hn : layersLeft limits p count + 1 ≤ n + 1)
    (name : String) (args : List Value) :
    Steady (From count depth) ((unroll dialect limits p u).call name args)
      ((hostWithRoom dialect limits p room).call name args) := by
  cases room with
  | zero =>
    exact (steadyFrom limits count depth).enterFunction rfl fun f hf _ => Steady.enter fun hd => by
      omega
  | succ room =>
    refine (steadyFrom limits count depth).enterFunction rfl fun f hf _ =>
      Steady.enter fun hd hc scope => ?_
    have hleft := layersLeft_eq limits p hc
    have hblock : Steady (From (count + 1) (depth + 1)) (u.block f.body scope)
        (runBlock p (semanticsOf dialect (hostWithRoom dialect limits p room) p) p.size f.body
          scope) :=
      hu.block (by omega) (by omega) (functionTable_stop_le hp hf) (by omega) scope
    exact (steadyFrom limits (count + 1) (depth + 1)).bind hblock fun _ => Likeness.value _ _

theorem Reaches.hosts (hn : layersLeft limits p count + 1 ≤ n) :
    (steadyFrom limits count depth).Hosts ⟨dialect, limits, u.call⟩
      (hostWithRoom dialect limits p room) :=
  ⟨rfl, rfl, rfl, rfl, hu.call hn hroom⟩

theorem Reaches.unroll_loop (hn : layersLeft limits p count + 2 ≤ n + 1) {body body' : Block}
    (hb : ∀ scope, Steady (From count depth) (body scope) (body' scope)) {iteration more : Nat}
    (hm : limits.maxLoopIterations.toNat ≤ iteration + more) (line : Nat) (guard : List Char)
    (cost : Nat) (scope : Scope) :
    Steady (From count depth)
      ((unroll dialect limits p u).loop line guard body iteration cost scope)
      (Loop.whileTrue (hostWithRoom dialect limits p room) line guard body' more iteration cost
        scope) := by
  have hcap : (hostWithRoom dialect limits p room).limits.maxLoopIterations ≤
      (iteration + more : Nat) := by
    show limits.maxLoopIterations ≤ _
    omega
  rw [Loop.whileTrue_eq _ line guard body' more (more + 1) iteration hcap (by omega),
    Loop.whileTrue]
  have H : (steadyFrom limits count depth).Hosts ⟨dialect, limits, u.call⟩ _ :=
    hu.hosts hroom (by omega)
  refine (steadyFrom limits count depth).bind (Likeness.continueLoop _ rfl _ _) fun b => ?_
  cases b with
  | false => exact Likeness.value _ _
  | true =>
    refine (steadyFrom limits count depth).bind (Likeness.evaluateText H scope guard) fun v =>
      Likeness.bind _ (Likeness.quiet _ (.isTrue v)) fun t => ?_
    cases t with
    | false => exact Likeness.bind _ (Likeness.record H rfl _ _ scope) fun _ => Likeness.value _ _
    | true =>
      refine (steadyFrom limits count depth).bind (Likeness.quiet _ .stepCount) fun _ =>
        Steady.step_bind fun hc => ?_
      have hleft := layersLeft_eq limits p hc
      have hn' : layersLeft limits p (count + 1) + 2 ≤ n := by omega
      have hb' : ∀ scope, Steady (From (count + 1) depth) (body scope) (body' scope) :=
        fun scope => (hb scope).mono (Nat.le_succ count)
      exact (steadyFrom limits (count + 1) depth).bind (hb' scope) fun flow =>
        Likeness.bind _ (Likeness.quiet _ .stepCount) fun _ => Likeness.andThen flow fun scope =>
          hu.loop hn' hroom hb' (by omega) line guard _ scope

theorem Reaches.unroll_block {fuel : Nat} {extent : Extent}
    (hn : layersLeft limits p count + 3 + (p.size - extent.start) ≤ n + 1)
    (hstop : extent.stop ≤ p.size) (hfuel : p.size ≤ extent.start + fuel) (scope : Scope) :
    Steady (From count depth) ((unroll dialect limits p u).block extent scope)
      (runBlock p (semanticsOf dialect (hostWithRoom dialect limits p room) p) fuel extent
        scope) := by
  have H : (steadyFrom limits count depth).Hosts ⟨dialect, limits, u.call⟩ _ :=
    hu.hosts hroom (by omega)
  have hle := p.le_nextStatement extent.start extent.depth
  cases fuel with
  | zero =>
    have hc : ¬ (p.nextStatement extent.start extent.depth < extent.stop ∧
        extent.depth ≤ (p.line (p.nextStatement extent.start extent.depth)).depth) := by omega
    simp only [unroll, runBlock, if_neg hc]
    exact Likeness.value (steadyFrom limits count depth) _
  | succ fuel =>
    simp only [unroll, runBlock]
    split_ifs with hc
    · have hi : p.nextStatement extent.start extent.depth < p.size := by omega
      have hloops : (steadyFrom limits count depth).Loops
          (fun line guard body => u.loop line guard body 0 1)
          (Loop.run (hostWithRoom dialect limits p room)) := by
        intro line line' hline guard body body' hb scope
        obtain rfl := Int.ofNat.inj hline
        exact hu.loop (by omega) hroom hb (Nat.le_of_eq (Nat.zero_add _).symm) line guard 1 scope
      have hblocks : ∀ {inner : Extent}, extent.start < inner.start → inner.stop ≤ p.size →
          ∀ scope, Steady (From count depth) (u.block inner scope)
            (runBlock p (semanticsOf dialect (hostWithRoom dialect limits p room) p) fuel inner
              scope) :=
        fun hstart hinner scope => hu.block (by omega) hroom hinner (by omega) scope
      have hline := Likeness.runLineBy (fun _ => rfl) dialect H hloops
        (fun _ hstart hinner => hblocks (by omega) hinner) hi scope
      rw [← semanticsOf_eq] at hline
      refine (steadyFrom limits count depth).bindReturned hline fun r hr => ?_
      obtain ⟨hlt, -⟩ := runLineBy_progress p hi hr
      exact Likeness.andThen r.2 (hblocks (Nat.lt_of_le_of_lt hle hlt) hstop)
    · exact Likeness.value (steadyFrom limits count depth) _

end Layers

section Runs

variable (dialect : Dialect) (limits : Limits) {p : Program} (hp : p.Numbered) (bottom : Unrolling)
include hp

theorem reaches_iterate : ∀ n : Nat,
    Reaches dialect limits p n ((unroll dialect limits p)^[n] bottom)
  | 0 => ⟨fun h => by omega, fun h => by omega, fun h => by omega⟩
  | n + 1 => by
    have hu := reaches_iterate n
    rw [Function.iterate_succ_apply']
    exact ⟨fun hn hroom => hu.unroll_call hroom hp hn,
      fun hn hroom hb _ _ hm => hu.unroll_loop hroom hn hb hm,
      fun hn hroom hstop hfuel => hu.unroll_block hroom hn hstop hfuel⟩

/-- Unrolled often enough, the recursion is the run of the program. -/
theorem program_unroll {n : Nat} (hn : (limits.maxSteps.toNat + 1) * (p.size + 3) ≤ n) :
    programBy dialect p ((unroll dialect limits p)^[n] bottom).block =
      runProgram dialect limits p := by
  have hu := reaches_iterate dialect limits hp bottom n
  have hleft : layersLeft limits p 0 + (p.size + 3) ≤ n := by
    rw [layersLeft, ← Nat.succ_mul]
    exact hn
  rw [runProgram_eq]
  refine ext_outcome fun m => ?_
  have hprogram := (steadyFrom limits 0 m.recorder.frames.length).programBy dialect hp
    fun _ hs scope => hu.block (by omega) (Nat.le_add_right _ _) hs (Nat.le_add_left _ _) scope
  exact (hprogram m ⟨Nat.zero_le _, rfl⟩).1.symm

end Runs

end Stepwise
