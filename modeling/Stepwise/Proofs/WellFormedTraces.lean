import Stepwise.Proofs.Nesting
import Stepwise.Proofs.Snapshots

/-!
# Traces are well formed

The steps of a run that ends are as many as were counted, within the limits. Each of them names a
line with code, shows no more calls than may be nested and shows no unknown value. The output of a
step goes on where that of the step before it ended: only the last entry can still grow.
-/

namespace Stepwise

open Source Run

/-- Output, the oldest entry first, that goes on where other output ended. -/
structure Extends (older newer : List Text) : Prop where
  length_le : older.length ≤ newer.length
  /-- All entries but the last are as they were. -/
  kept : ∀ i, i + 1 < older.length → newer[i]? = older[i]?
  /-- The last entry may have grown. -/
  last : ∀ i a, i + 1 = older.length → older[i]? = some a → ∃ b, newer[i]? = some b ∧ a <+: b

namespace Extends

theorem refl (output : List Text) : Extends output output :=
  ⟨Nat.le_refl _, fun _ _ => rfl, fun _ a _ ha => ⟨a, ha, List.prefix_rfl⟩⟩

theorem trans {o₁ o₂ o₃ : List Text} (h : Extends o₁ o₂) (h' : Extends o₂ o₃) :
    Extends o₁ o₃ := by
  have h1 := h.length_le
  have h2 := h'.length_le
  refine ⟨by omega, fun i hi => ?_, fun i a hi ha => ?_⟩
  · rw [h'.kept i (by omega), h.kept i hi]
  · obtain ⟨b, hb, hab⟩ := h.last i a hi ha
    by_cases hlen : i + 1 = o₂.length
    · obtain ⟨c, hc, hbc⟩ := h'.last i b hlen hb
      exact ⟨c, hc, hab.trans hbc⟩
    · exact ⟨b, by rw [h'.kept i (by omega), hb], hab⟩

theorem concat (output : List Text) (entry : Text) : Extends output (output ++ [entry]) :=
  ⟨by simp, fun i hi => List.getElem?_append_left (by omega), fun i a hi ha =>
    ⟨a, by rw [List.getElem?_append_left (by omega), ha], List.prefix_rfl⟩⟩

theorem grow (output : List Text) (entry added : Text) :
    Extends (output ++ [entry]) (output ++ [entry ++ added]) := by
  refine ⟨by simp, fun i hi => ?_, fun i a hi ha => ?_⟩
  · rw [List.length_append, List.length_singleton] at hi
    rw [List.getElem?_append_left (by omega), List.getElem?_append_left (by omega)]
  · rw [List.length_append, List.length_singleton] at hi
    obtain rfl : i = output.length := by omega
    rw [List.getElem?_concat_length] at ha ⊢
    cases ha
    exact ⟨_, rfl, List.prefix_append _ _⟩

theorem write (r : Recorder) (text ending : Text) :
    Extends r.output (r.write text ending).output := by
  unfold Recorder.write Recorder.output
  dsimp only
  split
  · rename_i newest older _ hentries
    rw [hentries, List.reverse_cons, List.reverse_cons]
    exact grow _ _ _
  · rw [List.reverse_cons]
    exact concat _ _

end Extends

/-- The unknown value is not among the data, at any depth. -/
def Known (data : Table Datum) : Prop := ∀ e ∈ data.entries, .unknown ∉ e.2.leaves

/-- A step at a line with code that shows no more calls than may be nested, and no unknown value. -/
structure Step.Sound (p : Program) (limits : Limits) (s : Step) : Prop where
  line : ∃ i : Nat, s.line = i ∧ p.HasCode i
  depth : (s.callStack.length : Int) ≤ max 0 limits.maxCallDepth
  bindings : Known s.bindings
  args : ∀ frame ∈ s.callStack, Known frame.args

/-- The steps of a run under these limits. -/
structure WellFormed (p : Program) (limits : Limits) (steps : List Step) : Prop where
  length_le : (steps.length : Int) ≤ max 0 limits.maxSteps
  sound : ∀ s ∈ steps, s.Sound p limits
  /-- The output of a step goes on where that of the step before it ended. -/
  output : ∀ before s t after, steps = before ++ s :: t :: after → Extends s.output t.output

theorem ValueInvariant.Shows.known {dialect : Dialect} {V : ValueInvariant dialect}
    {bindings : Table Datum} (h : V.Shows bindings) : Known bindings := by
  obtain ⟨heap, scope, -, -, hb⟩ := h
  exact Heap.unknown_notMem_of_snapshotScope hb

theorem functionTable_hasCode {dialect : Dialect} {p : Program} (hp : p.Numbered) {name : String}
    {f : FunctionDef} (h : (functionTable dialect p).get? name = some f) :
    p.HasCode f.headerLine := by
  obtain ⟨-, i, l, hi, hat⟩ := functionTable_source h
  obtain ⟨hblank, hheader, -⟩ := functionAt?_spec hat
  have hlt : i < p.size := (List.getElem?_eq_some_iff.1 hi).1
  have hline : p.line i = l := Option.some.inj ((Program.getElem?_line hlt).symm.trans hi)
  rw [hheader, hp i l hi]
  exact ⟨hlt, hline ▸ hblank⟩

namespace Recorder

/-- What the recorder holds is well formed, and every step that was counted is recorded. -/
structure WellKept (p : Program) (limits : Limits) (r : Recorder) : Prop where
  counted : r.stepCount = r.log.length
  few : (r.stepCount : Int) ≤ max 0 limits.maxSteps
  sound : ∀ s ∈ r.log, s.Sound p limits
  outputs : EachAfter (fun older s => ∀ t ∈ older.head?, Extends t.output s.output) r.log
  newest : ∀ t ∈ r.log.head?, Extends t.output r.output
  depth : (r.frames.length : Int) ≤ max 0 limits.maxCallDepth
  args : ∀ frame ∈ r.frames, Known frame.args

namespace WellKept

variable {p : Program} {limits : Limits} {r : Recorder}

theorem start : WellKept p limits {} where
  counted := rfl
  few := Int.le_max_left _ _
  sound := by simp
  outputs := trivial
  newest := by simp
  depth := Int.le_max_left _ _
  args := by simp

/-- A step at a line with code keeps the record in order if it shows no unknown value. -/
theorem step (h : r.WellKept p limits) {line : Nat} (hl : p.HasCode line) (kind : StepKind)
    (explanation : Text) {bindings : Table Datum} (hb : Known bindings)
    (hsteps : (r.stepCount + 1 : Nat) ≤ limits.maxSteps) :
    (r.recorded line kind explanation bindings).WellKept p limits where
  counted := congrArg (· + 1) h.counted
  few := Int.le_trans hsteps (Int.le_max_right _ _)
  sound := by
    rintro s (_ | ⟨_, hs⟩)
    · exact ⟨⟨line, rfl, hl⟩, by simpa using h.depth, hb, by simpa using h.args⟩
    · exact h.sound s hs
  outputs := ⟨h.newest, h.outputs⟩
  newest := by
    rintro _ ⟨⟩
    exact .refl _
  depth := h.depth
  args := h.args

theorem write (h : r.WellKept p limits) (text ending : Text) :
    (r.write text ending).WellKept p limits :=
  { h with newest := fun t ht => (h.newest t ht).trans (.write r text ending) }

theorem push (h : r.WellKept p limits) {frame : Frame} (hf : Known frame.args)
    (hdepth : r.frames.length < limits.maxCallDepth) : (r.push frame).WellKept p limits :=
  { h with
    depth := by
      have : ((r.push frame).frames.length : Int) = r.frames.length + 1 := by
        simp [Recorder.push]
      omega
    args := by
      rintro _ (_ | ⟨_, hs⟩)
      · exact hf
      · exact h.args _ hs }

theorem pop (h : r.WellKept p limits) : r.pop.WellKept p limits :=
  { h with
    depth := by
      have := h.depth
      have : (r.pop.frames.length : Int) ≤ r.frames.length := by simp [Recorder.pop]
      omega
    args := fun frame hf => h.args frame (List.mem_of_mem_tail hf) }

end WellKept

end Recorder

/-- Being well kept is a regime. A run that is given up may have counted one step too many. -/
def Regime.wellKept (dialect : Dialect) {p : Program} (hp : p.Numbered) (limits : Limits) :
    Regime dialect p limits where
  values := .any dialect
  region := fun _ => .code dialect p
  Busy := Recorder.WellKept p limits
  Calm := Recorder.WellKept p limits
  Over := Recorder.WellKept p limits
  Wrecked := fun _ => True
  busy_of_calm := id
  wrecked_of_busy := fun _ => trivial
  write := fun text ending h => h.write text ending
  warn := fun _ h => { h with }
  count := fun _ => trivial
  calm_step := fun kind explanation h _ hl hsteps hshows =>
    h.step hl kind explanation hshows.known hsteps
  over_return := fun explanation h hl hsteps hshows => h.step hl _ explanation hshows.known hsteps
  calm_call := fun explanation h hf hdepth hsteps hshows =>
    (h.push hshows.known hdepth).step (functionTable_hasCode hp hf) _ explanation hshows.known
      hsteps
  call_block := fun _ hf => functionTable_stop_le hp hf
  busy_pop := fun _ h => h.pop
  over_pop := fun _ h => h.pop
  wrecked_pop := fun _ _ => trivial

theorem Regime.wellKept_starts {dialect : Dialect} {p : Program} (hp : p.Numbered)
    (limits : Limits) : (wellKept dialect hp limits).Starts [] := by
  cases dialect with
  | indented => exact Nat.le_refl p.size
  | braced => exact ⟨Nat.le_refl p.size, fun _ => functionTable_stop_le hp⟩

theorem Recorder.WellKept.wellFormed {p : Program} {limits : Limits} {r : Recorder}
    (h : r.WellKept p limits) : WellFormed p limits r.steps where
  length_le := by
    rw [steps, List.length_reverse, ← h.counted]
    exact h.few
  sound := fun s hs => h.sound s (List.mem_reverse.1 hs)
  output := fun before s t after hs => by
    have hlog := h.outputs
    rw [← List.reverse_reverse r.log] at hlog
    have hsplit : r.steps = (before ++ [s]) ++ t :: after := by simpa using hs
    exact hlog.stands hsplit s (by simp)

/-- The steps of every run that ends are well formed, and they are all that were counted. -/
theorem traceSteps_wellFormed (dialect : Dialect) (limits : Limits) (source : String)
    {steps : List Step} (h : (traceSteps dialect limits source).result = .ok steps) :
    WellFormed (layout dialect source.toList) limits steps ∧
      steps.length = ((runProgram dialect limits (layout dialect source.toList)).run.run
        {}).2.recorder.stepCount := by
  have hp := layout_numbered dialect source.toList
  obtain ⟨m, hm, rfl, -, hreturned⟩ := Regime.exists_end (.inl fun _ => id)
    (Regime.wellKept_starts hp limits) trivial .start h
  have hkept : m.recorder.WellKept (layout dialect source.toList) limits := hreturned.elim id id
  refine ⟨hkept.wellFormed, ?_⟩
  have hend : (runProgram dialect limits (layout dialect source.toList)).run.run {} = _ := hm
  rw [hend, hkept.counted, Recorder.steps, List.length_reverse]

/-- A call with an unknown value in its argument, in which an output entry is left open. -/
theorem traceSteps_wellFormed_unknown :
    let source := "def f(a):\n    print(1, end=' ')\nx = 1 / 0\nf([x])\nprint(2)"
    ∃ steps, (traceSteps .indented {} source).result = .ok steps ∧
      (∃ s ∈ steps, s.callStack ≠ [] ∧ s.output ≠ []) ∧
        WellFormed (layout .indented source.toList) {} steps ∧
          steps.length = ((runProgram .indented {} (layout .indented source.toList)).run.run
            {}).2.recorder.stepCount := by
  intro source
  have hinside : (traceSteps .indented {} source).result.toOption.any
      (fun steps => steps.any fun s => !s.callStack.isEmpty && !s.output.isEmpty) = true := by
    decide +kernel
  obtain ⟨steps, hresult, hcall⟩ := exists_steps hinside
  exact ⟨steps, hresult, by simpa using hcall, traceSteps_wellFormed .indented {} source hresult⟩

end Stepwise
