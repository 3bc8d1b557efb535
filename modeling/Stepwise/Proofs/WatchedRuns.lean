import Stepwise.Proofs.RegimeRuns

/-!
# Watched runs

A `Watch` says which states and which values are in order. A watched run looks at the state and the
variables before and after every line, and at the arguments and the value of every call of a
function of the program. It raises an alarm where something is not in order, and the alarm ends the
run.

A watched run is the run itself or it ends with the alarm (`Watch.erasure`). A run that keeps to a
regime in which all is in order raises no alarm, so watching it changes nothing
(`Watch.Fits.program_eq`): that everything is in order then holds at every line of every call.
-/

namespace Stepwise

open Source Run

/-- What is to be in order along a run. -/
structure Watch where
  state : Machine → Bool
  value : Value → Bool

namespace Watch

variable {α β : Type} (w : Watch)

/-- The fault of a run in which something is not in order. No run has it otherwise. -/
def alarm : Fault := .unknownKind "out of order"

/-- Raise the alarm if the state is not in order. -/
def insist (holds : Machine → Bool) : Run Unit := do
  if holds (← get) then pure () else throw alarm

/-- The values of all variables are in order. -/
def scope (scope : Scope) : Bool := scope.entries.all fun e => w.value e.2

/-- The variables and the value that is returned are in order. -/
def flow (flow : Flow) : Bool := w.scope flow.scope && flow.returned.all w.value

/-- Look at the arguments and the value of every call. -/
def host (host : Host) : Host :=
  { host with
    call := fun name args => do
      insist fun m => w.state m && args.all w.value
      let v ← host.call name args
      insist fun m => w.state m && w.value v
      pure v }

/-- Look at the state and the variables before and after every line. -/
def semantics (semantics : Semantics) : Semantics := fun host p runBlock i scope => do
  insist fun m => w.state m && w.scope scope
  let r ← semantics (w.host host) p runBlock i scope
  insist fun m => w.state m && w.flow r.2
  pure r

/-- The watched run of a program. -/
def program (dialect : Dialect) (limits : Limits) (p : Program) : Run Unit :=
  let watched := w.semantics (semanticsOf dialect)
  programBy dialect p (runBlock p (watched (hostOf dialect watched p limits) p) p.size)

theorem outcome_insist (holds : Machine → Bool) (m : Machine) :
    (insist holds).outcome m = (if holds m then .ok () else .error alarm, m) := by
  unfold insist
  rw [outcome_bind_ok (outcome_get m)]
  split_ifs <;> rfl

/-- The first computation does the same as the second one, or it ends with the alarm. -/
def Erases (x y : Run α) : Prop :=
  ∀ m, x.outcome m = y.outcome m ∨ ∃ m', x.outcome m = (.error alarm, m')

namespace Erases

theorem refl (x : Run α) : Erases x x := fun _ => .inl rfl

theorem bind {x y : Run α} {f g : α → Run β} (h : Erases x y)
    (hf : ∀ a, Returns x a → Erases (f a) (g a)) : Erases (x >>= f) (y >>= g) := by
  intro m
  rcases h m with heq | ⟨m', halarm⟩
  · rcases hx : x.outcome m with ⟨fault | a, m'⟩ <;> rw [hx] at heq
    · rw [outcome_bind_error hx, outcome_bind_error heq.symm]
      exact .inl rfl
    · rw [outcome_bind_ok hx, outcome_bind_ok heq.symm]
      exact hf a ⟨m, m', hx⟩ m'
  · exact .inr ⟨m', outcome_bind_error halarm f⟩

theorem recover {x y : Run Value} (h : Erases x y) : Erases (Run.recover x) (Run.recover y) := by
  intro m
  rw [outcome_recover, outcome_recover]
  rcases h m with heq | ⟨m', halarm⟩
  · rw [heq]
    exact .inl rfl
  · rw [halarm]
    exact .inr ⟨m', rfl⟩

theorem insistFirst {x y : Run α} (holds : Machine → Bool) (h : Erases x y) :
    Erases (insist holds >>= fun _ => x) y := by
  intro m
  have hi := outcome_insist holds m
  split_ifs at hi
  · rw [outcome_bind_ok hi]
    exact h m
  · exact .inr ⟨m, outcome_bind_error hi _⟩

theorem insistLast {x y : Run α} (holds : α → Machine → Bool) (h : Erases x y) :
    Erases (x >>= fun a => insist (holds a) >>= fun _ => pure a) y := by
  have hy : Erases (x >>= fun a => insist (holds a) >>= fun _ => pure a) (y >>= pure) :=
    h.bind fun a _ => insistFirst (holds a) (.refl (pure a))
  rwa [bind_pure] at hy

theorem enter (limits : Limits) (function : String) (params : List String) (line : Int)
    (args : List Value) (explanation : Text) {body body' : Scope → Run α}
    (hb : ∀ scope, Erases (body scope) (body' scope)) :
    Erases (Record.enter limits function params line args explanation body)
      (Record.enter limits function params line args explanation body') := by
  intro m
  rw [Record.outcome_enter, Record.outcome_enter]
  split_ifs
  · exact .inl rfl
  cases m.heap.snapshotScope (Record.bindParams params args) with
  | error fault => exact .inl rfl
  | ok shown =>
    have hcall := (refl (Record.step limits line .functionCall explanation
      (Record.bindParams params args))).bind fun _ _ => hb (Record.bindParams params args)
    dsimp only
    rcases hcall (m.push ⟨function, shown⟩) with heq | ⟨m', halarm⟩
    · rw [heq]
      exact .inl rfl
    · rw [halarm]
      exact .inr ⟨m'.pop, rfl⟩

end Erases

/-- Taking the watch away is a likeness of runs with the same limits. -/
def erasure (limits : Limits) : Likeness limits limits where
  Lines := Eq
  Rel := Erases
  bindReturned := Erases.bind
  quiet := fun _ => .refl _
  recover := Erases.recover
  step := fun h _ _ _ => h ▸ .refl _
  continueLoop := fun h _ _ => h ▸ .refl _

section Runs

variable {w} {dialect : Dialect} {p : Program} {limits : Limits}

theorem hosts_erase {h h' : Host} (H : (erasure limits).Hosts h h') :
    (erasure limits).Hosts (w.host h) h' where
  dialect := H.dialect
  limits := H.limits
  limits' := H.limits'
  callsPerExpression := rfl
  call := fun name args => .insistFirst _ (.insistLast _ (H.call name args))

theorem hosts_of_calls {call call' : String → List Value → Run Value}
    (hc : ∀ name args, Erases (call name args) (call' name args)) :
    (erasure limits).Hosts ⟨dialect, limits, call⟩ ⟨dialect, limits, call'⟩ :=
  ⟨rfl, rfl, rfl, rfl, hc⟩

theorem blocks_erase {h h' : Host} (H : (erasure limits).Hosts h h') (fuel : Nat)
    {extent : Extent} (hs : extent.stop ≤ p.size) (scope : Scope) :
    Erases (runBlock p (w.semantics (semanticsOf dialect) h p) fuel extent scope)
      (runBlock p (semanticsOf dialect h' p) fuel extent scope) := by
  have H' := hosts_erase (w := w) H
  refine Likeness.blockOf (A := erasure limits) (fun hb hi scope => ?_) fuel hs scope
  refine .insistFirst _ (.insistLast _ ?_)
  rw [semanticsOf_eq, semanticsOf_eq]
  exact Likeness.runLineBy (fun _ => rfl) dialect H' (Likeness.loops_run H' rfl) hb hi scope

theorem calls_erase (hp : p.Numbered) : ∀ (room : Nat) (name : String) (args : List Value),
    Erases
      (callFunction dialect (w.semantics (semanticsOf dialect)) p (functionTable dialect p) limits
        room name args)
      (callFunction dialect (semanticsOf dialect) p (functionTable dialect p) limits room name args)
  | 0, _, _ => .refl _
  | room + 1, _, _ =>
    (erasure limits).enterFunction rfl fun _ hf _ => Erases.enter _ _ _ _ _ _ fun scope =>
      (blocks_erase (hosts_of_calls (calls_erase hp room)) p.size
        (functionTable_stop_le hp hf) scope).bind fun _ _ => .refl _

/-- The watched run is the run, or it ends with the alarm. -/
theorem program_erases (w : Watch) (dialect : Dialect) (hp : p.Numbered) :
    Erases (w.program dialect limits p) (runProgram dialect limits p) := by
  rw [runProgram_eq]
  exact (erasure limits).programBy dialect hp fun _ hs scope =>
    blocks_erase (hosts_of_calls (calls_erase hp _)) p.size hs scope

end Runs

section Regimes

variable {w} {dialect : Dialect} {p : Program} {limits : Limits}

/-- Under the regime all is in order, unless the run is being given up. -/
structure Fits (w : Watch) (G : Regime dialect p limits) : Prop where
  value : ∀ {v}, G.values.Val v → w.value v = true
  busy : ∀ {m : Machine}, G.values.Inv m.heap → G.Busy m.recorder → w.state m = true
  returned : ∀ {m : Machine}, G.values.Inv m.heap → G.Over m.recorder → w.state m = true

variable {G : Regime dialect p limits} (hw : w.Fits G) {frames : List Frame}
include hw

theorem Fits.scope {scope : Scope} (hs : G.values.Scoped scope) : w.scope scope = true :=
  List.all_eq_true.2 fun e he => hw.value (hs e he)

theorem Fits.flow {flow : Flow} (hflow : G.values.Flowing flow) : w.flow flow = true := by
  rw [Watch.flow, hw.scope hflow.1, Bool.true_and, Option.all_eq_true]
  exact fun v hv => hw.value (hflow.2 v hv)

theorem Fits.after {flow : Flow} {m : Machine} (hi : G.values.Inv m.heap)
    (h : G.After flow m.recorder) : w.state m = true :=
  (Regime.returned_of_after h).elim (fun hc => hw.busy hi (G.busy_of_calm hc)) (hw.returned hi)

omit hw in
theorem insists {E : Fault → Prop} {P : Recorder → Prop} {holds : Machine → Bool}
    (h : ∀ m : Machine, G.values.Inv m.heap → P m.recorder → holds m = true) :
    G.Holds frames E P (insist holds) (fun _ => True) fun _ => P := by
  intro m hframes hi hm
  rw [outcome_insist, if_pos (h m hi hm)]
  exact ⟨hframes, hi, trivial, hm⟩

theorem Fits.serves {h : Host} (H : G.Serves h) : G.Serves (w.host h) where
  dialect := H.dialect
  limits := H.limits
  call := fun frames name args ha => by
    have hargs : args.all w.value = true := List.all_eq_true.2 fun v hv => hw.value (ha v hv)
    refine (insists fun m hi hb => ?_).bind fun _ _ => (H.call frames name ha).bind fun v hv =>
      (insists fun m hi hb => ?_).bind fun _ _ => .value hv
    · rw [hw.busy hi hb, hargs]
      rfl
    · rw [hw.busy hi hb, hw.value hv]
      rfl

theorem Fits.runsLines {semantics : Semantics} (hlines : G.RunsLines semantics) :
    G.RunsLines (w.semantics semantics) := by
  intro host H frames runBlock hb i hl scope hs
  refine (insists fun m hi hc => ?_).bind fun _ _ =>
    (hlines (hw.serves H) hb hl hs).bind fun r hr => (insists fun m hi ha => ?_).bind fun _ _ =>
      .valueWith hr fun _ h => h
  · rw [hw.busy hi (G.busy_of_calm hc), hw.scope hs]
    rfl
  · rw [hw.after hi ha, hw.flow hr.2]
    rfl

/-- A run that keeps to a regime in which all is in order is not changed by being watched. -/
theorem Fits.program_eq (hp : p.Numbered) (hG : G.PassesHeaders) (hstart : G.Starts [])
    (hheap : G.values.Inv {}) (hcalm : G.Calm {}) :
    (w.program dialect limits p).outcome {} = (runProgram dialect limits p).outcome {} := by
  have hends := Regime.programBy (hw.runsLines (Regime.runsLines hG)) hstart {} rfl hheap hcalm
  -- the alarm is none of the faults that can end a run under a regime
  refine (program_erases w dialect hp {}).resolve_right fun ⟨m, halarm⟩ => ?_
  change G.Ends _ _ _ _ ((w.program dialect limits p).outcome {}) at hends
  rw [halarm] at hends
  obtain ⟨-, -, hfatal, -⟩ := hends
  rcases hfatal with ⟨⟨⟩⟩

end Regimes

end Watch

end Stepwise
