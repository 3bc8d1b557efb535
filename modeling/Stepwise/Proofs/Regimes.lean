import Stepwise.Proofs.Derivations
import Stepwise.Proofs.Discipline
import Stepwise.Proofs.Regions
import Stepwise.Proofs.ValueInvariants

/-!
# Regimes

A `Regime` brings together what a run holds to: an invariant of its values, the region that the lines
of each call stay in, and a property of the recorder in four degrees. The recorder is `Busy` while an
expression is evaluated, `Calm` between statements, `Over` when the innermost call has returned, and
`Wrecked` when the run is being given up, which can leave a step counted that is not recorded.

`Regime.Holds` is the triple of a computation that is started with some calls under way. It ends with
the same calls under way and the heap in order. A fault that can be recovered from leaves the
recorder busy, and any other may leave it wrecked. The triples of expressions follow from the rules
for their parts.
-/

namespace Stepwise

open Source Run

variable {α β : Type}

namespace Recorder

/-- The recorder with one more step counted. -/
def counted (r : Recorder) : Recorder := { r with stepCount := r.stepCount + 1 }

/-- The recorder with one more step counted and recorded. -/
def recorded (r : Recorder) (line : Int) (kind : StepKind) (explanation : Text)
    (bindings : Table Datum) : Recorder :=
  { r with
    stepCount := r.stepCount + 1
    log :=
      { line, kind, explanation, bindings
        callStack := r.frames.reverse, output := r.output } :: r.log }

/-- The recorder with one more warning. -/
def warn (r : Recorder) (w : Warning) : Recorder := { r with warned := w :: r.warned }

/-- The recorder inside another call. -/
def push (r : Recorder) (frame : Frame) : Recorder := { r with frames := frame :: r.frames }

/-- The recorder after the innermost call. -/
def pop (r : Recorder) : Recorder := { r with frames := r.frames.tail }

end Recorder

namespace ValueInvariant

variable {dialect : Dialect} (V : ValueInvariant dialect)

/-- All variables have values that may be held. -/
def Scoped (scope : Scope) : Prop := ∀ e ∈ scope.entries, V.Val e.2

/-- What a flow hands on may be held. -/
def Flowing (flow : Flow) : Prop := V.Scoped flow.scope ∧ ∀ v ∈ flow.returned, V.Val v

/-- What a step can show of variables whose values may be held. -/
def Shows (bindings : Table Datum) : Prop :=
  ∃ h scope, V.Inv h ∧ V.Scoped scope ∧ h.snapshotScope scope = .ok bindings

variable {V}

theorem Scoped.empty : V.Scoped Table.empty := fun _ h => by cases h

theorem Scoped.put {scope : Scope} (hs : V.Scoped scope) (name : String) {v : Value}
    (hv : V.Val v) : V.Scoped (scope.put name v) := by
  have entries : ∀ l : List (String × Value), (∀ e ∈ l, V.Val e.2) →
      ∀ e ∈ Table.putIn name v l, V.Val e.2 := by
    intro l
    induction l with
    | nil =>
      rintro - e he
      rw [Table.putIn, List.mem_singleton] at he
      exact he ▸ hv
    | cons entry rest ih =>
      intro hl e he
      have hrest := fun e' he' => hl e' (List.mem_cons_of_mem entry he')
      rw [Table.putIn] at he
      split_ifs at he <;> rcases List.mem_cons.1 he with rfl | he
      · exact hv
      · exact hrest e he
      · exact hl _ List.mem_cons_self
      · exact ih hrest e he
  exact entries scope.entries hs

theorem Scoped.get? {scope : Scope} (hs : V.Scoped scope) {name : String} {v : Value}
    (h : scope.get? name = some v) : V.Val v := by
  obtain ⟨front, back, hl, -⟩ := List.lookup_eq_some_iff.1 h
  exact hs (name, v) (hl ▸ List.mem_append_right _ List.mem_cons_self)

/-- The variables of a call with arguments that may be held. -/
theorem scoped_bindParams (params : List String) {args : List Value} (ha : V.All args) :
    V.Scoped (Record.bindParams params args) := by
  have filled : ∀ (entries : List (String × Value)) (t : Scope), (∀ e ∈ entries, V.Val e.2) →
      V.Scoped t → V.Scoped (entries.foldl (fun t e => t.put e.1 e.2) t) := by
    intro entries
    induction entries with
    | nil => exact fun _ _ ht => ht
    | cons e rest ih =>
      exact fun t he ht => ih _ (fun e' he' => he e' (List.mem_cons_of_mem e he'))
        (ht.put e.1 (he e List.mem_cons_self))
  refine filled _ _ (fun e he => ?_) Scoped.empty
  obtain ⟨i, _, rfl⟩ := List.mem_mapIdx.1 he
  dsimp only
  rw [List.getD_eq_getElem?_getD]
  cases hi : args[i]? with
  | none => exact val_none
  | some v => exact ha v (List.mem_of_getElem? hi)

end ValueInvariant

theorem mem_of_mapM_some {f : α → Option β} : ∀ {as : List α} {bs : List β},
    as.mapM f = some bs → ∀ b ∈ bs, ∃ a ∈ as, f a = some b
  | [], _, h, b, hb => by
    cases h
    cases hb
  | a :: as, _, h, b, hb => by
    simp only [List.mapM_cons, Option.pure_def, Option.bind_eq_bind, Option.bind_eq_some_iff,
      Option.some.injEq] at h
    obtain ⟨c, hc, cs, hcs, rfl⟩ := h
    rcases List.mem_cons.1 hb with rfl | hb
    · exact ⟨a, List.mem_cons_self, hc⟩
    · obtain ⟨a', ha', hfb⟩ := mem_of_mapM_some hcs b hb
      exact ⟨a', List.mem_cons_of_mem a ha', hfb⟩

/-- What a run holds to: in its values, its lines, and the four degrees of its recorder. -/
structure Regime (dialect : Dialect) (p : Program) (limits : Limits) where
  values : ValueInvariant dialect
  /-- The region of the innermost call, given the calls under way. -/
  region : List Frame → Region dialect p
  Busy : Recorder → Prop
  Calm : Recorder → Prop
  Over : Recorder → Prop
  Wrecked : Recorder → Prop
  busy_of_calm : ∀ {r}, Calm r → Busy r
  wrecked_of_busy : ∀ {r}, Busy r → Wrecked r
  write : ∀ {r} (text ending : Text), Busy r → Busy (r.write text ending)
  warn : ∀ {r} (w : Warning), Calm r → Calm (r.warn w)
  count : ∀ {r}, Busy r → Wrecked r.counted
  calm_step : ∀ {r bindings} {line : Nat} (kind : StepKind) (explanation : Text), Busy r →
    kind.isInner = true → (region r.frames).Line line →
    (r.stepCount + 1 : Nat) ≤ limits.maxSteps → values.Shows bindings →
    Calm (r.recorded line kind explanation bindings)
  over_return : ∀ {r bindings} {line : Nat} (explanation : Text), Busy r →
    (region r.frames).Line line → (r.stepCount + 1 : Nat) ≤ limits.maxSteps →
    values.Shows bindings → Over (r.recorded line .functionReturn explanation bindings)
  calm_call : ∀ {r name f shown} (explanation : Text), Busy r →
    (functionTable dialect p).get? name = some f → r.frames.length < limits.maxCallDepth →
    (r.stepCount + 1 : Nat) ≤ limits.maxSteps → values.Shows shown →
    Calm ((r.push ⟨f.name, shown⟩).recorded f.headerLine .functionCall explanation shown)
  call_block : ∀ {frames name f} (shown : Table Datum),
    (functionTable dialect p).get? name = some f → (region (⟨f.name, shown⟩ :: frames)).Block f.body
  busy_pop : ∀ {r frame frames}, r.frames = frame :: frames → Busy r → Busy r.pop
  over_pop : ∀ {r frame frames}, r.frames = frame :: frames → Over r → Busy r.pop
  wrecked_pop : ∀ {r frame frames}, r.frames = frame :: frames → Wrecked r → Wrecked r.pop

namespace Regime

variable {dialect : Dialect} {p : Program} {limits : Limits} (G : Regime dialect p limits)

/-- Where a fault leaves the recorder. -/
def Left (fault : Fault) (r : Recorder) : Prop :=
  if fault.isRecoverable then G.Busy r else G.Wrecked r

/-- Ends of a computation that was started with these calls under way. -/
def Ends (frames : List Frame) (E : Fault → Prop) (S : α → Prop) (Q : α → Recorder → Prop) :
    Except Fault α × Machine → Prop
  | (.ok a, m) => m.recorder.frames = frames ∧ G.values.Inv m.heap ∧ S a ∧ Q a m.recorder
  | (.error fault, m) =>
    m.recorder.frames = frames ∧ G.values.Inv m.heap ∧ E fault ∧ G.Left fault m.recorder

/-- With these calls under way and from a recorder that satisfies `P`, the computation gives a
result that satisfies `S` and leaves a recorder that satisfies `Q`, or it has a fault in `E`. -/
def Holds (frames : List Frame) (E : Fault → Prop) (P : Recorder → Prop) (x : Run α)
    (S : α → Prop) (Q : α → Recorder → Prop) : Prop :=
  ∀ m, m.recorder.frames = frames → G.values.Inv m.heap → P m.recorder →
    G.Ends frames E S Q (x.outcome m)

/-- Evaluation inside an expression. -/
abbrev Evaluates (frames : List Frame) (x : Run α) (S : α → Prop) : Prop :=
  G.Holds frames (Passing dialect p) G.Busy x S fun _ => G.Busy

/-- Part of a statement before its step is recorded. -/
abbrev Works (frames : List Frame) (x : Run α) (S : α → Prop) : Prop :=
  G.Holds frames (Fatal dialect p) G.Busy x S fun _ => G.Busy

/-- Part of a statement that ends with its step. -/
abbrev Records (frames : List Frame) (x : Run α) (S : α → Prop) : Prop :=
  G.Holds frames (Fatal dialect p) G.Busy x S fun _ => G.Calm

variable {G} {frames : List Frame}

theorem left_of_busy {r : Recorder} (h : G.Busy r) (fault : Fault) : G.Left fault r := by
  unfold Left
  split_ifs
  · exact h
  · exact G.wrecked_of_busy h

theorem wrecked_of_left {fault : Fault} {r : Recorder} (h : G.Left fault r) : G.Wrecked r := by
  unfold Left at h
  split_ifs at h
  · exact G.wrecked_of_busy h
  · exact h

theorem left_pop {fault : Fault} {r : Recorder} {frame : Frame} (hr : r.frames = frame :: frames)
    (h : G.Left fault r) : G.Left fault r.pop := by
  unfold Left at h ⊢
  split_ifs at h ⊢
  · exact G.busy_pop hr h
  · exact G.wrecked_pop hr h

namespace Holds

variable {E E' : Fault → Prop} {P P' : Recorder → Prop} {S S' : α → Prop} {R : β → Prop}
  {Q Q' : α → Recorder → Prop} {T : β → Recorder → Prop}

theorem bind {x : Run α} {f : α → Run β} (hx : G.Holds frames E P x S Q)
    (hf : ∀ a, S a → G.Holds frames E (Q a) (f a) R T) : G.Holds frames E P (x >>= f) R T := by
  intro m hframes hi hm
  have h := hx m hframes hi hm
  rcases hr : x.outcome m with ⟨fault | a, m'⟩ <;> rw [hr] at h
  · rw [outcome_bind_error hr]
    exact h
  · obtain ⟨hframes', hi', hs, hq⟩ := h
    rw [outcome_bind_ok hr]
    exact hf a hs m' hframes' hi' hq

theorem value {a : α} (h : S a) : G.Holds frames E P (pure a) S fun _ => P :=
  fun _ hframes hi hm => ⟨hframes, hi, h, hm⟩

theorem valueWith {a : α} (h : S a) (hq : ∀ r, P r → Q a r) : G.Holds frames E P (pure a) S Q :=
  fun _ hframes hi hm => ⟨hframes, hi, h, hq _ hm⟩

theorem before {x : Run α} (hP : ∀ r, P' r → P r) (hx : G.Holds frames E P x S Q) :
    G.Holds frames E P' x S Q :=
  fun m hframes hi hm => hx m hframes hi (hP _ hm)

/-- What a computation gives is one of the values that it can give. -/
theorem afterReturn {x : Run α} (hx : G.Holds frames E P x S Q)
    (h : ∀ a, Returns x a → S a → S' a) (hq : ∀ a r, Q a r → Q' a r) :
    G.Holds frames E P x S' Q' := by
  intro m hframes hi hm
  have hends := hx m hframes hi hm
  rcases hr : x.outcome m with ⟨fault | a, m'⟩ <;> rw [hr] at hends
  · exact hends
  · obtain ⟨hframes', hi', hs, hq'⟩ := hends
    exact ⟨hframes', hi', h a ⟨m, m', hr⟩ hs, hq a _ hq'⟩

theorem after {x : Run α} (hx : G.Holds frames E P x S Q) (h : ∀ a, S a → S' a)
    (hq : ∀ a r, Q a r → Q' a r) : G.Holds frames E P x S' Q' :=
  hx.afterReturn (fun a _ => h a) hq

theorem faults {x : Run α} (hx : G.Holds frames E P x S Q) (h : ∀ fault, E fault → E' fault) :
    G.Holds frames E' P x S Q := by
  intro m hframes hi hm
  have hends := hx m hframes hi hm
  rcases hr : x.outcome m with ⟨fault | a, m'⟩ <;> rw [hr] at hends
  · obtain ⟨hframes', hi', he, hleft⟩ := hends
    exact ⟨hframes', hi', h fault he, hleft⟩
  · exact hends

/-- A statement may start where an expression may. -/
theorem fromCalm {x : Run α} (hx : G.Holds frames E G.Busy x S Q) :
    G.Holds frames E G.Calm x S Q :=
  hx.before fun _ => G.busy_of_calm

theorem fault {f : Fault} (hf : E f) : G.Holds frames E G.Busy (throw f : Run α) S Q :=
  fun _ hframes hi hm => ⟨hframes, hi, hf, left_of_busy hm f⟩

theorem get : G.Holds frames E P (get : Run Machine) (fun m => G.values.Inv m.heap) fun _ => P :=
  fun _ hframes hi hm => ⟨hframes, hi, hi, hm⟩

theorem isTrue (v : Value) : G.Holds frames E P (isTrue v) (fun _ => True) fun _ => P :=
  fun _ hframes hi hm => ⟨hframes, hi, trivial, hm⟩

theorem stepCount : G.Holds frames E P stepCount (fun _ => True) fun _ => P :=
  fun _ hframes hi hm => ⟨hframes, hi, trivial, hm⟩

theorem write (text ending : Text) :
    G.Holds frames E G.Busy (Record.write text ending) (fun _ => True) fun _ => G.Busy :=
  fun _ hframes hi hm => ⟨hframes, hi, trivial, G.write text ending hm⟩

theorem fromHeap {read : Heap → Except Fault α} (he : ∀ h, FaultsIn E (read h))
    (hs : ∀ h, G.values.Inv h → Gives S (read h)) :
    G.Holds frames E G.Busy (fromHeap read) S fun _ => G.Busy := by
  intro m hframes hi hm
  rw [outcome_fromHeap]
  rcases hr : read m.heap with fault | a
  · exact ⟨hframes, hi, he m.heap fault hr, left_of_busy hm fault⟩
  · exact ⟨hframes, hi, hs m.heap hi a hr, hm⟩

theorem ofExcept {x : Except Fault α} (he : FaultsIn E x) (hs : Gives S x) :
    G.Holds frames E G.Busy (ofExcept x) S fun _ => G.Busy := by
  intro m hframes hi hm
  rw [outcome_ofExcept]
  rcases hr : x with fault | a
  · exact ⟨hframes, hi, he fault hr, left_of_busy hm fault⟩
  · exact ⟨hframes, hi, hs a hr, hm⟩

theorem onHeap {act : HeapM α} (he : ∀ h, FaultsIn E (act.run.run h).1)
    (hs : G.values.Keeps act S) : G.Holds frames E G.Busy (onHeap act) S fun _ => G.Busy := by
  intro m hframes hi hm
  rw [outcome_onHeap]
  have hfaults := he m.heap
  obtain ⟨hi', hgives⟩ := hs m.heap hi
  rcases hr : act.run.run m.heap with ⟨fault | a, h⟩ <;> rw [hr] at hfaults hi' hgives
  · exact ⟨hframes, hi', hfaults fault rfl, left_of_busy hm fault⟩
  · exact ⟨hframes, hi', hgives a rfl, hm⟩

/-- Several computations in turn, of which each result satisfies `R`. -/
theorem mapM {f : α → Run β} {l : List α}
    (h : ∀ a ∈ l, G.Holds frames E P (f a) R fun _ => P) :
    G.Holds frames E P (l.mapM f) (fun bs => ∀ b ∈ bs, R b) fun _ => P := by
  induction l with
  | nil => exact value fun _ hb => by cases hb
  | cons a l ih =>
    rw [List.mapM_cons]
    refine (h a List.mem_cons_self).bind fun b hb =>
      (ih fun a' ha' => h a' (List.mem_cons_of_mem a ha')).bind fun bs hbs => value ?_
    rintro b' hb'
    rcases List.mem_cons.1 hb' with rfl | hb'
    · exact hb
    · exact hbs b' hb'

end Holds

open Holds

/-- An evaluation that is recovered from gives a value that may be held. -/
theorem Evaluates.recover {x : Run Value} (hx : G.Evaluates frames x G.values.Val) :
    G.Works frames (Run.recover x) G.values.Val := by
  intro m hframes hi hm
  have h := hx m hframes hi hm
  rw [outcome_recover]
  rcases hr : x.outcome m with ⟨fault | v, m'⟩ <;> rw [hr] at h
  · obtain ⟨hframes', hi', hf, hleft⟩ := h
    unfold Left at hleft
    by_cases hrec : fault.isRecoverable = true
    · simp only [hrec, if_true] at hleft ⊢
      exact ⟨hframes', hi', ValueInvariant.val_unknown, hleft⟩
    · simp only [hrec] at hleft ⊢
      refine ⟨hframes', hi', hf.resolve_left hrec, ?_⟩
      simpa only [Left, hrec] using hleft
  · exact h

theorem Works.evaluates {x : Run α} {S : α → Prop} (hx : G.Works frames x S) :
    G.Evaluates frames x S :=
  hx.faults fun _ => .inr

/-- Recording a step: nothing is recorded if the budget is used up or a variable cannot be shown. -/
theorem recordStep {Q : Recorder → Prop} (line : Int) (kind : StepKind) (explanation : Text)
    {scope : Scope} (hs : G.values.Scoped scope)
    (hQ : ∀ r bindings, r.frames = frames → G.Busy r →
      (r.stepCount + 1 : Nat) ≤ limits.maxSteps → G.values.Shows bindings →
      Q (r.recorded line kind explanation bindings)) :
    G.Holds frames (Fatal dialect p) G.Busy (Record.step limits line kind explanation scope)
      (fun _ => True) fun _ => Q := by
  intro m hframes hi hm
  have hfaults := m.heap.faultsIn_snapshotScope scope
  rw [Record.outcome_step]
  split_ifs with hbudget
  · exact ⟨hframes, hi, .budget rfl, G.count hm⟩
  · rcases hb : m.heap.snapshotScope scope with fault | bindings <;> rw [hb] at hfaults
    · obtain rfl := hfaults fault rfl
      exact ⟨hframes, hi, .bottomless, G.count hm⟩
    · exact ⟨hframes, hi, trivial, hQ _ _ hframes hm (by omega) ⟨_, _, hi, hs, hb⟩⟩

theorem continueLoop {E : Fault → Prop} (line iteration cost : Int) :
    G.Holds frames E G.Calm (Record.continueLoop limits line iteration cost) (fun _ => True)
      fun _ => G.Calm := by
  intro m hframes hi hm
  rw [Record.outcome_continueLoop]
  split_ifs
  · exact ⟨hframes, hi, trivial, G.warn _ hm⟩
  · exact ⟨hframes, hi, trivial, G.warn _ hm⟩
  · exact ⟨hframes, hi, trivial, hm⟩

variable (G) in
/-- How the body of a call may leave the recorder. -/
def Returned (r : Recorder) : Prop := G.Calm r ∨ G.Over r

/-- A call of a function of the program. However its body ends, the call is left. -/
theorem enter {name : String} {f : FunctionDef} {S : α → Prop}
    (hf : (functionTable dialect p).get? name = some f) {args : List Value}
    (ha : G.values.All args) (explanation : Text) {body : Scope → Run α}
    (hbody : ∀ shown scope, G.values.Scoped scope →
      G.Holds (⟨f.name, shown⟩ :: frames) (Fatal dialect p) G.Calm (body scope) S
        fun _ => G.Returned) :
    G.Works frames (Record.enter limits f.name f.params f.headerLine args explanation body) S := by
  intro m hframes hi hm
  have hscope := ValueInvariant.scoped_bindParams f.params ha
  have hfaults := m.heap.faultsIn_snapshotScope (Record.bindParams f.params args)
  rw [Record.outcome_enter]
  split_ifs with hdepth
  · exact ⟨hframes, hi, .budget rfl, left_of_busy hm _⟩
  rcases hb : m.heap.snapshotScope (Record.bindParams f.params args) with fault | shown <;>
    rw [hb] at hfaults
  · obtain rfl := hfaults fault rfl
    exact ⟨hframes, hi, .bottomless, left_of_busy hm _⟩
  have hstep := Record.outcome_step limits f.headerLine .functionCall explanation
    (Record.bindParams f.params args) (m.push ⟨f.name, shown⟩)
  rw [show (m.push ⟨f.name, shown⟩).heap.snapshotScope (Record.bindParams f.params args) =
    .ok shown from hb] at hstep
  dsimp only at hstep ⊢
  split_ifs at hstep with hbudget
  · rw [outcome_bind_error hstep]
    exact ⟨hframes, hi, .budget rfl, G.count hm⟩
  · have hsteps : (m.recorder.stepCount + 1 : Nat) ≤ limits.maxSteps := by
      have : ¬ limits.maxSteps < (m.recorder.stepCount + 1 : Nat) := hbudget
      omega
    have h := hbody shown (Record.bindParams f.params args) hscope
      ((m.push ⟨f.name, shown⟩).recorded f.headerLine .functionCall explanation shown)
      (congrArg _ hframes) hi
      (G.calm_call explanation hm hf (by omega) hsteps ⟨_, _, hi, hscope, hb⟩)
    rw [outcome_bind_ok hstep]
    rcases hr : (body (Record.bindParams f.params args)).outcome
      ((m.push ⟨f.name, shown⟩).recorded f.headerLine .functionCall explanation shown)
      with ⟨fault | a, m'⟩ <;> rw [hr] at h
    · obtain ⟨hframes', hi', hfatal, hleft⟩ := h
      have hpop : G.Left fault m'.recorder.pop := left_pop hframes' hleft
      refine ⟨congrArg List.tail hframes', hi', ?_, ?_⟩
      · split_ifs
        · exact .budget rfl
        · exact hfatal
      · split_ifs with hbottom
        · subst hbottom
          exact hpop
        · exact hpop
    · obtain ⟨hframes', hi', hs, hcalm | hover⟩ := h
      · exact ⟨congrArg List.tail hframes', hi', hs, G.busy_pop hframes' (G.busy_of_calm hcalm)⟩
      · exact ⟨congrArg List.tail hframes', hi', hs, G.over_pop hframes' hover⟩

section Values

theorem evaluatesOnHeap {act : HeapM α} {S : α → Prop} (he : ∀ h, act.OfValue h)
    (hs : G.values.Keeps act S) : G.Evaluates frames (Run.onHeap act) S :=
  onHeap (fun h => (he h).mono fun _ => Fault.OfValue.passing) hs

theorem worksOnText {read : Heap → Except Fault α} (h : ∀ heap, OfText (read heap)) :
    G.Works frames (Run.fromHeap read) fun _ => True :=
  fromHeap (fun heap => (h heap).mono fun _ => Fault.OfText.fatal) fun _ _ _ _ => trivial

theorem worksOfExcept {x : Except Fault α} {S : α → Prop} {fault : Fault}
    (h : FaultsIn (· = fault) x) (hf : Fatal dialect p fault) (hs : Gives S x) :
    G.Works frames (ofExcept x : Run α) S :=
  Holds.ofExcept (h.mono fun _ hg => hg ▸ hf) hs

theorem undefined {S : α → Prop} {Q : α → Recorder → Prop} :
    G.Holds frames (Passing dialect p) G.Busy (throw .undefined) S Q :=
  fault (.inl rfl)

theorem writeCounted (text : Text) :
    G.Evaluates frames (Builtin.writeCounted text) G.values.Val :=
  (Holds.write text _).bind fun _ _ => value (ValueInvariant.val_int _)

theorem evaluatesText {read : Heap → Except Fault α} (h : ∀ heap, OfText (read heap)) :
    G.Evaluates frames (Run.fromHeap read) fun _ => True :=
  (worksOnText h).evaluates

theorem builtin {name : String} {f : List Value → Run Value}
    (h : Builtin.find? dialect name = some f) {args : List Value} (ha : G.values.All args) :
    G.Evaluates frames (f args) G.values.Val := by
  unfold Builtin.find? at h
  split at h
  · split_ifs at h
    · cases h
      have texts (heap : Heap) := FaultsIn.mapM (Indented.ofText_display heap) args
      exact (evaluatesText texts).bind fun _ _ => (Holds.write _ _).bind fun _ _ =>
        value ValueInvariant.val_none
    · obtain ⟨g, hg, rfl⟩ := Option.map_eq_some_iff.1 h
      exact evaluatesOnHeap (fun heap => Builtin.ofValue_indented? heap hg args)
        (ValueInvariant.keeps_indented? rfl hg ha)
  · split_ifs at h
    · cases h
      cases args with
      | nil => exact undefined
      | cons fmt rest =>
        exact (evaluatesText fun heap => Printf.ofText_format heap fmt rest).bind
          fun text _ => writeCounted text
    · cases h
      refine (evaluatesText fun heap => ?_).bind fun text _ => writeCounted text
      cases args with
      | nil => exact .pure _
      | cons v _ => exact Braced.ofText_display heap v
    · obtain ⟨g, hg, rfl⟩ := Option.map_eq_some_iff.1 h
      exact evaluatesOnHeap (fun heap => Builtin.ofValue_braced? heap hg args)
        (ValueInvariant.keeps_braced? hg ha)

end Values

variable (G) in
/-- A host of the dialect whose calls keep to the regime, whatever calls are under way. -/
structure Serves (host : Host) : Prop where
  dialect : host.dialect = dialect
  limits : host.limits = limits
  call : ∀ frames name {args}, G.values.All args →
    G.Evaluates frames (host.call name args) G.values.Val

section Expressions

variable (G) in
/-- Evaluation inside one expression, however many calls are left. -/
def EvaluatesIn (frames : List Frame) (x : EvalM α) (S : α → Prop) : Prop :=
  ∀ n, G.Evaluates frames (x.run n) fun r => S r.1

namespace EvaluatesIn

variable {S : α → Prop} {R : β → Prop}

theorem bind {x : EvalM α} {f : α → EvalM β} (hx : G.EvaluatesIn frames x S)
    (hf : ∀ a, S a → G.EvaluatesIn frames (f a) R) : G.EvaluatesIn frames (x >>= f) R :=
  fun n => Holds.bind (hx n) fun r hr => hf r.1 hr r.2

theorem lift {x : Run α} (h : G.Evaluates frames x S) :
    G.EvaluatesIn frames (liftM x : EvalM α) S :=
  fun n => Holds.bind h fun a ha => Holds.value (a := (a, n)) ha

theorem value {a : α} (h : S a) : G.EvaluatesIn frames (pure a : EvalM α) S :=
  fun n => Holds.value (a := (a, n)) h

theorem whenTrue (v : Value) {x y : EvalM α} (hx : G.EvaluatesIn frames x S)
    (hy : G.EvaluatesIn frames y S) :
    G.EvaluatesIn frames (do if ← Run.isTrue v then x else y) S :=
  (lift (Holds.isTrue v)).bind fun b _ => by cases b <;> assumption

theorem truthOf (w : Value) : G.EvaluatesIn frames
    (do pure (Operator.truth .braced (← Run.isTrue w)) : EvalM Value) G.values.Val :=
  (lift (Holds.isTrue w)).bind fun _ _ => value (ValueInvariant.val_int _)

theorem spendCall : G.EvaluatesIn frames Eval.spendCall fun _ => True := by
  intro n m hframes hi hm
  show G.Ends _ _ _ _
    ((if n - 1 < 0 then (throw .undefined : EvalM Unit) else pure ()) (n - 1) m)
  split_ifs
  · exact ⟨hframes, hi, .inl rfl, hm⟩
  · exact ⟨hframes, hi, trivial, hm⟩

theorem run' {x : EvalM α} (h : G.EvaluatesIn frames x S) (n : Int) :
    G.Evaluates frames (x.run' n) S := by
  rw [StateT.run'_eq, map_eq_pure_bind]
  exact Holds.bind (h n) fun r hr => Holds.value hr

end EvaluatesIn

open EvaluatesIn

variable {host : Host}

theorem callNamed (H : G.Serves host) (name : String) {args : List Value}
    (ha : G.values.All args) : G.Evaluates frames (Eval.callNamed host name args) G.values.Val := by
  unfold Eval.callNamed
  rw [H.dialect]
  split
  · exact builtin ‹_› ha
  · exact H.call frames name ha

theorem lookup {scope : Scope} (hs : G.values.Scoped scope) (name : String) :
    G.Evaluates frames (Eval.lookup scope name) G.values.Val := by
  unfold Eval.lookup
  split
  · exact Holds.value (hs.get? ‹_›)
  · exact undefined

theorem val_ofLiteral {l : Literal} (hl : l.OfDialect dialect) :
    G.values.Val (Eval.ofLiteral l) := by
  cases l with
  | none => exact ValueInvariant.val_none
  | bool b => exact ValueInvariant.val_bool hl b
  | int n => exact ValueInvariant.val_int n
  | float x => exact ValueInvariant.val_float x
  | str s => exact ValueInvariant.val_str _

theorem ne_not_of_mem {op : UnaryOp} (hop : op ∈ UnaryOp.ofDialect dialect) :
    dialect = .braced → op ≠ .not := by
  rintro rfl rfl
  simp [UnaryOp.ofDialect] at hop

theorem ne_pow_of_mem {op : BinaryOp} (hop : op ∈ BinaryOp.ofDialect dialect) :
    dialect = .braced → op ≠ .pow := by
  rintro rfl rfl
  simp [BinaryOp.ofDialect, BinaryOp.symbolic] at hop

mutual

theorem eval (H : G.Serves host) {scope : Scope} (hs : G.values.Scoped scope) :
    ∀ e : Expr, e.OfDialect dialect →
      G.EvaluatesIn frames (Eval.eval host scope e) G.values.Val
  | .lit _, he => by
    rw [Eval.eval]
    exact .value (val_ofLiteral he)
  | .var name, _ => by
    rw [Eval.eval]
    exact .lift (lookup hs name)
  | .list items, he => by
    rw [Eval.eval]
    exact (evalAll H hs items he.2).bind fun values hv =>
      .lift (evaluatesOnHeap (fun _ => by simp) (.newList hv))
  | .unary op operand, he => by
    rw [Eval.eval]
    exact (eval H hs operand he.2).bind fun v hv => .lift (evaluatesOnHeap (fun _ => by simp)
      (ValueInvariant.keeps_applyUnary hv (ne_not_of_mem he.1)))
  | .binary op left right, he => by
    rw [Eval.eval]
    refine (eval H hs left he.2.1).bind fun v hv => ?_
    have hw := eval H hs right he.2.2
    have hpow := ne_pow_of_mem he.1
    cases op with
    | and => exact .whenTrue v hw (.value hv)
    | or => exact .whenTrue v (.value hv) hw
    | logicalAnd =>
      exact .whenTrue v (hw.bind fun w _ => .truthOf w) (.value (ValueInvariant.val_int _))
    | logicalOr =>
      exact .whenTrue v (.value (ValueInvariant.val_int _)) (hw.bind fun w _ => .truthOf w)
    | _ =>
      rw [H.dialect]
      exact hw.bind fun w hw' => .lift (evaluatesOnHeap (fun _ => by simp)
        (ValueInvariant.keeps_apply hv hw' hpow))
  | .index target position, he => by
    rw [Eval.eval, H.dialect]
    exact (eval H hs target he.1).bind fun v hv => (eval H hs position he.2).bind fun i _ => .lift
      (fromHeap
        (fun heap => (Operator.ofValue_item heap _ v i).mono fun _ => Fault.OfValue.passing)
        fun _ hi => ValueInvariant.gives_item hv hi i)
  | .call name args, he => by
    rw [Eval.eval]
    exact EvaluatesIn.spendCall.bind fun _ _ => (evalAll H hs args he).bind fun values hv =>
      .lift (callNamed H name hv)
  | .method receiver name args, he => by
    rw [Eval.eval]
    exact (eval H hs receiver he.2.1).bind fun v hv => (evalAll H hs args he.2.2).bind
      fun values hvs => .lift (evaluatesOnHeap (fun _ => by simp)
        (ValueInvariant.keeps_call hv name hvs))

theorem evalAll (H : G.Serves host) {scope : Scope} (hs : G.values.Scoped scope) :
    ∀ es : List Expr, Expr.OfDialectAll dialect es →
      G.EvaluatesIn frames (Eval.evalAll host scope es) G.values.All
  | [], _ => by
    rw [Eval.evalAll]
    exact .value .nil
  | e :: es, he => by
    rw [Eval.evalAll]
    exact (eval H hs e he.1).bind fun v hv => (evalAll H hs es he.2).bind fun values hvs =>
      .value (.cons hv hvs)

end

end Expressions

section Hosts

variable {host : Host} (H : G.Serves host) {scope : Scope} (hs : G.values.Scoped scope)
include H hs

theorem evaluate {e : Expr} (he : e.OfDialect dialect) :
    G.Works frames (host.evaluate scope e) G.values.Val :=
  ((eval H hs e he).run' _).recover

theorem evaluateText (text : List Char) :
    G.Works frames (host.evaluateText scope text) G.values.Val := by
  unfold Host.evaluateText
  rw [H.dialect]
  dsimp only
  split_ifs
  · exact value ValueInvariant.val_none
  · split
    · exact evaluate H hs (Expr.ofDialect_of_parse ‹_›)
    · exact value ValueInvariant.val_unknown

theorem evaluateEach : ∀ es : List Expr, Expr.OfDialectAll dialect es →
    G.Works frames (host.evaluateEach scope es) G.values.All
  | [], _ => value .nil
  | _ :: es, he => (evaluate H hs he.1).bind fun _ hv => (evaluateEach es he.2).bind fun _ hvs =>
      value (.cons hv hvs)

theorem evaluateTexts : ∀ texts : List (List Char),
    G.Works frames (host.evaluateTexts scope texts) G.values.All
  | [] => value .nil
  | text :: texts => (evaluateText H hs text).bind fun _ hv =>
      (evaluateTexts texts).bind fun _ hvs => value (.cons hv hvs)

omit hs in
/-- An expression that is read belongs to the dialect. -/
theorem parse (text : List Char) :
    G.Works frames (host.parse text) fun e => ∀ e' ∈ e, e'.OfDialect dialect := by
  unfold Host.parse
  rw [H.dialect]
  refine worksOfExcept (Expr.faultsIn_parse? _ text) .tooManyDigits fun _ he e' he' => ?_
  cases he'
  exact Expr.ofDialect_of_parse? he

theorem callMethod {receiver : Expr} (hr : receiver.OfDialect dialect) (name : String)
    {args : List Value} (ha : G.values.All args) :
    G.Works frames (host.callMethod scope receiver name args) G.values.Val := by
  refine Evaluates.recover (((eval H hs receiver hr).run' _).bind fun v hv => ?_)
  exact evaluatesOnHeap (fun _ => by simp) (ValueInvariant.keeps_call hv name ha)

omit H hs in
theorem describe (v : Value) : G.Works frames (host.describe v) fun _ => True :=
  worksOnText fun heap => by split <;> simp

omit H hs in
theorem describeAll (values : List Value) :
    G.Works frames (host.describeAll values) fun _ => True :=
  (Holds.mapM fun v _ => describe v).bind fun _ _ => value trivial

omit H hs in
theorem display (v : Value) : G.Works frames (host.display v) fun _ => True :=
  worksOnText fun heap => by split <;> simp

theorem record {line : Nat} (hl : (G.region frames).Line line) (kind : StepKind)
    (explanation : Text) (hkind : kind.isInner = true) :
    G.Records frames (host.record line kind explanation scope) fun _ => True := by
  unfold Host.record
  rw [H.limits]
  refine recordStep line kind explanation hs fun r bindings hframes hb hsteps hshows => ?_
  exact G.calm_step kind explanation hb hkind (hframes.symm ▸ hl) hsteps hshows

omit hs in
theorem combine {op : BinaryOp} (hop : dialect = .braced → op ≠ .pow) {v w : Value}
    (hv : G.values.Val v) (hw : G.values.Val w) :
    G.Works frames (host.combine op v w) G.values.Val := by
  unfold Host.combine
  rw [H.dialect]
  exact Evaluates.recover (evaluatesOnHeap (fun _ => by simp)
    (ValueInvariant.keeps_apply hv hw hop))

omit H hs in
theorem storeItem {cell : Nat} (hc : G.values.Val (.list cell)) (index : Int) {v : Value}
    (hv : G.values.Val v) : G.Works frames (Host.storeItem cell index v) fun _ => True := by
  intro m hframes hi hm
  have kept (i : Nat) : G.values.All ((m.heap.items cell).set i v) := fun w hw =>
    (List.mem_or_eq_of_mem_set hw).elim (G.values.item hi hc w) fun h => h ▸ hv
  rw [Host.storeItem, outcome_bind_ok (outcome_get m)]
  dsimp only
  split
  · exact ⟨hframes, G.values.write hi hc (kept _), trivial, hm⟩
  · exact ⟨hframes, hi, trivial, hm⟩

theorem store {target : Expr} (ht : target.OfDialect dialect) {v : Value} (hv : G.values.Val v) :
    G.Works frames (host.store target v scope) fun r => G.values.Scoped r.2 := by
  cases target with
  | var name => exact value (hs.put name hv)
  | index container position =>
    refine (evaluate H hs ht.1).bind fun base hb => (evaluate H hs ht.2).bind fun index _ => ?_
    split
    · exact value hs
    · split_ifs
      · exact value hs
      · split
        · exact (storeItem hb _ hv).bind fun _ _ => value hs
        · split
          · exact value (hs.put _ (ValueInvariant.val_str _))
          · exact value hs
        · exact value hs
  | _ => exact value hs

omit hs in
theorem parseTargets (texts : List (List Char)) : G.Works frames (host.parseTargets texts)
    fun targets => ∀ ts ∈ targets, ∀ t ∈ ts, t.OfDialect dialect := by
  refine (Holds.mapM fun text _ => parse H text).bind fun parsed hp => ?_
  split
  · rename_i targets htargets
    refine value fun ts hts t ht => ?_
    split_ifs at hts
    · cases hts
      obtain ⟨e, he, rfl⟩ := mem_of_mapM_some htargets t ht
      exact hp _ he t rfl
    · cases hts
  · exact value fun _ h => by cases h

omit hs in
theorem parseTarget (text : List Char) : G.Works frames (host.parseTarget text)
    fun target => ∀ t ∈ target, t.OfDialect dialect :=
  (parse H text).bind fun _ he => value fun t ht =>
    he t (Option.filter_eq_some_iff.1 ht).1

omit scope hs in
theorem storeEach : ∀ {pairs : List (Expr × Value)} {scope : Scope},
    (∀ pair ∈ pairs, pair.1.OfDialect dialect ∧ G.values.Val pair.2) → G.values.Scoped scope →
      G.Works frames (host.storeEach pairs scope) G.values.Scoped
  | [], _, _, hs => value hs
  | (target, v) :: rest, _, hp, hs => by
    have hhead := hp (target, v) List.mem_cons_self
    exact (store H hs hhead.1 hhead.2).bind fun _ hs' =>
      storeEach (fun pair hm => hp pair (List.mem_cons_of_mem _ hm)) hs'

end Hosts

end Regime

end Stepwise
